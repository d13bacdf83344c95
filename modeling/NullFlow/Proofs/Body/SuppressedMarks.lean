import NullFlow.Proofs.Analysis.Parts
import NullFlow.Proofs.Body.Solutions
import NullFlow.Proofs.Types.Conversions
/-!
Expressions with the promise that they are not null. The promise also covers the marks inside the
type, so that the value can flow into places with other marks there. It does not cover marks that the
erasure of the type leaves.
-/

namespace NullFlow

/-- A conversion that loses no marks is not reported. -/
theorem Context.checkShape_silent (context : Context) {source target : Ty}
    (kept : context.classes.classify source target ≠ .losesNullability) (place : Span)
    (session : Session) : context.checkShape source target place session = ((), session) := by
  have quiet : (!source.isNull && context.classes.classify source target == .losesNullability) =
      false := by
    rw [beq_false_of_ne kept, Bool.and_false]
  rw [checkShape, quiet]
  rfl

/-- The erasure of a type loses nullability for no target if and only if no mark of the type resists
it. The value of an expression with the promise converts like the erasure of the type of the
expression. If no mark of that type resists, its shape is reported at no place that it flows to. -/
theorem suppression_silences_iff (context : Context) (source : Ty) :
    ((∀ target, context.classes.classify source.obliviousNested target ≠ .losesNullability) ↔
      ¬context.classes.Resists source) ∧
    ∀ (operand : Expr) (ty? : Option Ty) (span : Span) (facts : Facts) (session : Session),
      ((operand.meaning context).value (.reachable facts) session).1.1.ty? = some source →
      ∃ ty, (((Expr.node ⟨.suppress operand, ty?, span⟩).meaning context).value (.reachable facts)
          session).1.1.ty? = some ty ∧
        (∀ target, context.classes.classify ty target =
          context.classes.classify source.obliviousNested target) ∧
        (¬context.classes.Resists source → ∀ target place later,
          context.checkShape ty target place later = ((), later)) := by
  have silent : (∀ target, context.classes.classify source.obliviousNested target ≠
      .losesNullability) ↔ ¬context.classes.Resists source := by
    rw [← ClassTable.erased_losesNullability_iff]
    exact not_exists.symm
  refine ⟨silent, fun operand ty? span facts session typed => ?_⟩
  have alike (target : Ty) : context.classes.classify (source.obliviousNested.withState .notNull)
      target = context.classes.classify source.obliviousNested target := by
    rw [← ClassTable.classify_shape, Ty.shape_withState, ClassTable.classify_shape]
  refine ⟨source.obliviousNested.withState .notNull, ?_, alike, fun erased target place later => ?_⟩
  · exact congrArg (Option.map fun ty => ty.obliviousNested.withState .notNull) typed
  · exact context.checkShape_silent (alike target ▸ silent.mpr erased target) place later

namespace Body

section Example

/-- A call that yields an object of type `C<object?>`. -/
def boxCall : Expr :=
  .node ⟨.call none ⟨"Foo", "Foo()", none, [], [], boxed .nullable⟩ [], some (boxed .nullable), .none⟩

def boxContext : Context := ⟨boxClasses, "M", none, ⟨40, false⟩, false⟩

def boxSession : Session := ⟨.empty, .start false, [], false, 0⟩

/-- The promise covers the type argument of a class that extends no other class. The object flows to
every place without a report on its shape. -/
theorem boxed_silenced :
    ¬boxClasses.Resists (boxed .nullable) ∧
    ∃ ty, (((Expr.node ⟨.suppress boxCall, none, .none⟩).meaning boxContext).value Store.entry
        boxSession).1.1.ty? = some ty ∧
      ∀ target place later, boxContext.checkShape ty target place later = ((), later) := by
  have extendsNone : (boxClasses.base? (boxed .oblivious)).isNone ∧
      (boxClasses.base? (.named "object" [] .nullable)).isNone := by
    decide +kernel
  simp only [Option.isNone_iff_eq_none] at extendsNone
  have erased : ¬boxClasses.Resists (boxed .nullable) := by
    intro resists
    cases resists with
    | base differ view _ _ =>
        cases (boxClasses.instance?_eq_none extendsNone.1 differ).symm.trans view
    | argument member resists =>
        obtain rfl := List.mem_singleton.mp member
        cases resists with
        | base differ view _ _ =>
            cases (boxClasses.instance?_eq_none extendsNone.2 differ).symm.trans view
        | argument member _ => cases member
  obtain ⟨ty, typed, -, silent⟩ := (suppression_silences_iff boxContext (boxed .nullable)).2
    boxCall none .none SortedMap.empty boxSession rfl
  exact ⟨erased, ty, typed, silent erased⟩

/-- A variable of one type is assigned to one of another type, with the promise that it is not
null. -/
def suppressedMove (source target : Ty) : Body where
  name := "M"
  span? := none
  thisType? := none
  parameters := [0, 1]
  returnType := .void
  locals := #[⟨"x", target, false⟩, ⟨"y", source, false⟩]
  exprs := #[⟨.read 0, some target, .none⟩, ⟨.read 1, some source, .none⟩,
    ⟨.suppress 1, some source, .none⟩, ⟨.assign 0 2, some target, .none⟩]
  stmts := #[⟨.evaluate 3, .none⟩]
  root := 0

/-- A class with a type argument, and a class that extends it with an argument that may be null. -/
def derivedClasses : ClassTable := .ofList [⟨"C", ["T"], none⟩, ⟨"D", [], some (boxed .nullable)⟩]

/-- A delegate that returns an object. -/
def producer (result : Mark) : Ty := .delegate [] (.named "object" [] result) .plain

/-- The erasure of the source still loses nullability on the way to the target, and the analysis of
the move reports its shape. -/
def ReportsMove (source target : Ty) : Prop :=
  (suppressedMove source target).validate = .ok () ∧
    derivedClasses.classify source.obliviousNested target = .losesNullability ∧
    ∃ method, (suppressedMove source target).method? = some method ∧
      method.analyze derivedClasses ⟨40, false⟩ false =
        some ⟨[.shapeMismatch .none "M" source.obliviousNested target], none, 2, true⟩

/-- The promise covers neither the result of a delegate nor the type argument of a base class. -/
theorem suppressedMove_reports :
    ReportsMove (producer .nullable) (producer .plain) ∧
      ReportsMove (.named "D" [] .plain) (boxed .plain) := by
  have reports (source target : Ty) (valid : (suppressedMove source target).validate = .ok ())
      (loses : derivedClasses.classify source.obliviousNested target = .losesNullability)
      (analyzed : ((suppressedMove source target).method?.any fun method =>
        decide (method.analyze derivedClasses ⟨40, false⟩ false =
          some ⟨[.shapeMismatch .none "M" source.obliviousNested target], none, 2, true⟩)) = true) :
      ReportsMove source target := by
    obtain ⟨method, found, reported⟩ := (Option.any_eq_true _ _).mp analyzed
    exact ⟨valid, loses, method, found, of_decide_eq_true reported⟩
  constructor
  · exact reports _ _ (by decide +kernel) (by decide +kernel) (by decide +kernel)
  · exact reports _ _ (by decide +kernel) (by decide +kernel) (by decide +kernel)

end Example

end Body

end NullFlow
