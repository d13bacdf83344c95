import NullFlow.Proofs.Body.CallResults
import NullFlow.Proofs.Types.Substitution
/-!
The delegate that a call expects of a lambda. It is the type of the parameter in which first the types
of the receiver are put in and then those that were inferred so far. The other arguments are compared
with the parameter in which all types are put in at once, where the inferred ones come first. The two
are equal if and only if the inferred types do not disturb those of the receiver.
-/

namespace NullFlow

section Delegate

variable (receiverTypes inferred : Instantiation)

/-- For every type parameter that occurs in the type and for which the receiver has a type, the call
has the same type there, which is the inferred one if there is one and that of the receiver otherwise,
as the receiver's type becomes when the inferred types are put in. -/
def Ty.Undisturbed (ty : Ty) : Prop :=
  ∀ occurrence ∈ ty.occurrences, ∀ bound, receiverTypes occurrence.1 = some bound →
    (bound.substitute inferred).under occurrence.2 =
      ((inferred occurrence.1).getD bound).under occurrence.2

/-- No type is inferred for a type parameter in the type for which the receiver has one, and none for
a type parameter in that type of the receiver. -/
def Ty.Fresh (ty : Ty) : Prop :=
  ∀ name ∈ ty.parameters, ∀ bound, receiverTypes name = some bound →
    inferred name = none ∧ ∀ other ∈ bound.parameters, inferred other = none

variable {receiverTypes inferred} {ty : Ty}

theorem Ty.Fresh.undisturbed (fresh : ty.Fresh receiverTypes inferred) :
    ty.Undisturbed receiverTypes inferred := by
  intro occurrence occurs bound isBound
  obtain ⟨free, apart⟩ := fresh _ (mem_parameters_of_occurrence occurs) bound isBound
  rw [substitute_of_free apart, free, Option.getD_none]

variable (receiverTypes inferred) in
/-- Types that are put in one after the other and types that are put in at once do the same at an
occurrence for which the receiver has no type. Otherwise the receiver's type is taken further by the
ones and may be overridden by the others. -/
theorem sameAt_andThen_extend_iff (occurrence : String × Mark) :
    Ty.SameAt (receiverTypes.andThen inferred) (receiverTypes.extend inferred) occurrence ↔
      ∀ bound, receiverTypes occurrence.1 = some bound →
        (bound.substitute inferred).under occurrence.2 =
          ((inferred occurrence.1).getD bound).under occurrence.2 := by
  obtain ⟨name, mark⟩ := occurrence
  rw [Ty.SameAt]
  cases isBound : receiverTypes name with
  | none =>
      have same : receiverTypes.andThen inferred name = receiverTypes.extend inferred name := by
        rw [Instantiation.andThen_free isBound, Instantiation.extend, isBound]
        cases inferred name <;> rfl
      rw [Ty.substitute, Ty.substitute, same]
      exact iff_of_true rfl fun bound absent => by cases absent
  | some bound =>
      have extended : receiverTypes.extend inferred name = some ((inferred name).getD bound) := by
        rw [Instantiation.extend, isBound]
        cases inferred name <;> rfl
      rw [Ty.substitute_bound (Instantiation.andThen_bound isBound inferred),
        Ty.substitute_bound extended]
      simp only [Option.some.injEq, forall_eq']

/-- It does not matter whether the types of the receiver and the inferred ones are put in one after the
other or at once if and only if the inferred ones do not disturb those of the receiver. -/
theorem Ty.undisturbed_iff :
    (ty.substitute receiverTypes).substitute inferred = ty.substitute (receiverTypes.extend inferred) ↔
      ty.Undisturbed receiverTypes inferred := by
  rw [substitute_andThen, substitute_eq_iff]
  simp only [sameAt_andThen_extend_iff, Undisturbed]

end Delegate

/-- What is known of a call when one of its lambdas is analyzed: its other arguments, and the types
that these and the earlier lambdas give to type parameters. -/
structure LambdaVisit where
  evaluated : List Evaluated
  inferred : Bindings
  store : Store

section Visit

variable (context : Context) (signature : Signature) (receiverTypes : Instantiation)

/-- A call up to the lambda behind the first arguments. -/
def untilLambda (before rest : List (Argument Part)) (store : Store) : Analysis LambdaVisit := do
  let (evaluated, bindings, store) ← evaluateArguments context signature 0 (before ++ rest) [] store
  let bindings ← evaluateLambdas context signature receiverTypes 0 before bindings
  return ⟨evaluated, bindings, store⟩

/-- A call from the return of the lambda at the position on. -/
def fromLambda (position : Nat) (parameter : Parameter) (after : List (Argument Part))
    (dynamic : Bool) (visit : LambdaVisit) (returned? : Option Value) :
    Analysis (Instantiation × Store) := do
  let bindings := match parameter.ty.result?, returned?.bind Value.ty? with
    | some result, some ty => visit.inferred.add context signature result ty
    | _, _ => visit.inferred
  let bindings ← evaluateLambdas context signature receiverTypes (position + 1) after bindings
  let types := receiverTypes.extend bindings.instantiation
  if !dynamic then visit.evaluated.forM (checkArgument context signature types)
  return (types, visit.store)

/-- The lambdas are analyzed one after the other. -/
theorem evaluateLambdas_append (before after : List (Argument Part)) (position : Nat)
    (bindings : Bindings) :
    evaluateLambdas context signature receiverTypes position (before ++ after) bindings = (do
      let bindings ← evaluateLambdas context signature receiverTypes position before bindings
      evaluateLambdas context signature receiverTypes (position + before.length) after bindings) := by
  induction before generalizing position bindings with
  | nil => rfl
  | cons argument rest ih =>
      have later : position + (rest.length + 1) = position + 1 + rest.length := by omega
      rw [List.cons_append, List.length_cons, later, evaluateLambdas, evaluateLambdas]
      cases argument.value.lambda? with
      | none => exact ih (position + 1) bindings
      | some analyze => simp only [ih, bind_assoc]

/-- A call analyzes a lambda for the delegate that the types known so far give it. -/
theorem passArguments_lambda {before after : List (Argument Part)} {argument : Argument Part}
    {analyze : Option Ty → Analysis (Option Value)} {parameter : Parameter}
    (isLambda : argument.value.lambda? = some analyze)
    (binds : signature.parameter? before.length argument.name? = some parameter) (dynamic : Bool)
    (store : Store) :
    passArguments context signature (before ++ argument :: after) receiverTypes dynamic store = (do
      let visit ← untilLambda context signature receiverTypes before (argument :: after) store
      let returned? ← analyze
        (some ((parameter.ty.substitute receiverTypes).substitute visit.inferred.instantiation))
      fromLambda context signature receiverTypes before.length parameter after dynamic visit
        returned?) := by
  simp only [passArguments, untilLambda, evaluateLambdas_append, Nat.zero_add, bind_assoc, pure_bind,
    evaluateLambdas, isLambda, binds]
  rfl

end Visit

/-- A lambda is analyzed for its parameter with the types of the receiver put in first and the inferred
ones then. This is the type that the same parameter has for other arguments, with all types put in at
once, if and only if the inferred types do not disturb those of the receiver. They do not if their
names are fresh. -/
theorem lambda_delegate_merged_iff (context : Context) (signature : Signature)
    (receiverTypes : Instantiation) (before after : List (Argument Part)) (argument : Argument Part)
    (analyze : Option Ty → Analysis (Option Value)) (parameter : Parameter)
    (isLambda : argument.value.lambda? = some analyze)
    (binds : signature.parameter? before.length argument.name? = some parameter) (dynamic : Bool)
    (store : Store) (session : Session) :
    let visit := untilLambda context signature receiverTypes before (argument :: after) store session
    let inferred := visit.1.inferred.instantiation
    let delegate := (parameter.ty.substitute receiverTypes).substitute inferred
    passArguments context signature (before ++ argument :: after) receiverTypes dynamic store session =
      (do
        let returned? ← analyze (some delegate)
        fromLambda context signature receiverTypes before.length parameter after dynamic visit.1
          returned?) visit.2 ∧
    (delegate = parameter.ty.substitute (receiverTypes.extend inferred) ↔
      parameter.ty.Undisturbed receiverTypes inferred) ∧
    (parameter.ty.Fresh receiverTypes inferred →
      delegate = parameter.ty.substitute (receiverTypes.extend inferred)) := by
  intro visit inferred delegate
  refine ⟨?_, Ty.undisturbed_iff, fun fresh => Ty.undisturbed_iff.mpr fresh.undisturbed⟩
  rw [passArguments_lambda context signature receiverTypes isLambda binds]
  rfl

namespace Body

section Example

/-- A method of boxes with a type parameter `T`. It takes an object of type `T` and a function that
makes an object of another type. -/
def fill (made : Ty) : Signature :=
  ⟨"Fill", "Box.Fill()", some "Box", ["T"],
    [⟨"value", .parameter "T" .plain⟩, ⟨"make", .delegate [] made .plain⟩], .void⟩

/-- Boxes with a type parameter of the name. -/
def fillContext (parameter : String) : Context :=
  ⟨.ofList [⟨"Box", [parameter], none⟩], "M", none, ⟨40, false⟩, false⟩

def boxHolding (inner : Ty) : Ty := .named "Box" [inner] .plain

/-- What the type parameter of boxes stands for in a box. -/
def fillTypes (parameter : String) (inner : Ty) : Instantiation :=
  (fillContext parameter).instanceTypes (some (boxHolding inner)) (some "Box")

def argumentOf (context : Context) (expr : Expr) : Argument Part :=
  ⟨.mk fun _ => expr.meaning context, none⟩

/-- A variable of type `object`. -/
def objectRead : Expr :=
  .node ⟨.read ⟨⟨"o", .named "object" [] .plain, false⟩, 1⟩, some (.named "object" [] .plain), .none⟩

/-- A lambda that returns null. -/
def nullLambda : Expr :=
  .node ⟨.lambda [] (.expr (.node ⟨.literal .null, some (.null .plain), .none⟩)), none, .none⟩

/-- What is known when the lambda of a call is analyzed, after the variable. -/
def fillVisit (parameter : String) (inner made : Ty) : LambdaVisit × Session :=
  let context := fillContext parameter
  untilLambda context (fill made) (fillTypes parameter inner) [argumentOf context objectRead]
    [argumentOf context nullLambda] Store.entry echoSession

/-- A box of objects that may be null is filled. The type parameter of boxes has another name than that
of the method, and the lambda is expected to return what the box holds. -/
theorem fill_delegate_merged :
    let context := fillContext "S"
    let made := Ty.parameter "S" .plain
    let visit := fillVisit "S" (.named "object" [] .nullable) made
    ∃ analyze, (argumentOf context nullLambda).value.lambda? = some analyze ∧
      passArguments context (fill made) [argumentOf context objectRead, argumentOf context nullLambda]
          (fillTypes "S" (.named "object" [] .nullable)) false Store.entry echoSession =
        (do
          let returned? ← analyze (some (.delegate [] (.named "object" [] .nullable) .plain))
          fromLambda context (fill made) (fillTypes "S" (.named "object" [] .nullable)) 1
            ⟨"make", .delegate [] made .plain⟩ [] false visit.1 returned?) visit.2 := by
  intro context made visit
  let receiverTypes := fillTypes "S" (.named "object" [] .nullable)
  let inferred := visit.1.inferred.instantiation
  have unbound : inferred "S" = none := by with_unfolding_all rfl
  have holds : receiverTypes "S" = some (.named "object" [] .nullable) := by with_unfolding_all rfl
  have fresh : (Ty.delegate [] made .plain).Fresh receiverTypes inferred := by
    intro name occurs bound isBound
    obtain rfl := List.mem_singleton.mp occurs
    obtain rfl := Option.some.inj (holds.symm.trans isBound)
    exact ⟨unbound, fun other inBound => by cases inBound⟩
  obtain ⟨handed, -, merged⟩ := lambda_delegate_merged_iff context (fill made) receiverTypes
    [argumentOf context objectRead] [] (argumentOf context nullLambda) _
    ⟨"make", .delegate [] made .plain⟩ rfl rfl false Store.entry echoSession
  have delegate : (Ty.delegate [] made .plain).substitute (receiverTypes.extend inferred) =
      .delegate [] (.named "object" [] .nullable) .plain := by
    with_unfolding_all rfl
  rw [(merged fresh).trans delegate] at handed
  exact ⟨_, rfl, handed⟩

/-- A box is filled with an object and with a lambda that returns null. -/
def fillCall (inner made : Ty) : Body where
  name := "M"
  span? := none
  thisType? := none
  parameters := [0, 1]
  returnType := .void
  locals := #[⟨"b", boxHolding inner, false⟩, ⟨"o", .named "object" [] .plain, false⟩]
  exprs := #[⟨.read 0, some (boxHolding inner), .none⟩,
    ⟨.read 1, some (.named "object" [] .plain), .none⟩,
    ⟨.literal .null, some (.null .plain), .none⟩,
    ⟨.lambda [] (.expr 2), none, .none⟩,
    ⟨.call (some 0) (fill made) [⟨1, none⟩, ⟨3, none⟩], some .void, .none⟩]
  stmts := #[⟨.evaluate 4, .none⟩]
  root := 0

/-- The delegate that the call expects of its lambda, and the type that the same parameter has for
other arguments. -/
def fillDelegates (parameter : String) (inner made : Ty) : Ty × Ty :=
  let receiverTypes := fillTypes parameter inner
  let inferred := (fillVisit parameter inner made).1.inferred.instantiation
  let ty : Ty := .delegate [] made .plain
  ((ty.substitute receiverTypes).substitute inferred, ty.substitute (receiverTypes.extend inferred))

/-- What is reported of the body that fills the box. -/
def fillReports (parameter : String) (inner made : Ty) : Option (List DiagnosticKind) := do
  let method ← (fillCall inner made).method?
  let report ← method.analyze (fillContext parameter).classes ⟨40, false⟩ false
  return report.diagnostics.map Diagnostic.kind

/-- The object makes `T` stand for `object`. If boxes have a type parameter of the name too, the lambda
is expected to return what the box holds and null is not reported, while it is if that type parameter
has another name. If the box holds objects of a type `T` of the caller, the lambda is expected to return
an object, and null is reported. -/
theorem fillCall_delegates_differ :
    fillDelegates "T" (.named "object" [] .nullable) (.parameter "T" .plain) =
        (.delegate [] (.named "object" [] .nullable) .plain,
          .delegate [] (.named "object" [] .notNullable) .plain) ∧
      fillDelegates "S" (.parameter "T" .plain) (.parameter "S" .plain) =
        (.delegate [] (.named "object" [] .notNullable) .plain,
          .delegate [] (.parameter "T" .plain) .plain) ∧
      (fillCall (.named "object" [] .nullable) (.parameter "T" .plain)).validate = .ok () ∧
      fillReports "T" (.named "object" [] .nullable) (.parameter "T" .plain) = some [] ∧
      fillReports "S" (.named "object" [] .nullable) (.parameter "T" .plain) = some [.returnValue] ∧
      (fillCall (.parameter "T" .plain) (.parameter "S" .plain)).validate = .ok () ∧
      fillReports "S" (.parameter "T" .plain) (.parameter "S" .plain) = some [.returnValue] := by
  refine ⟨by with_unfolding_all rfl, by with_unfolding_all rfl, ?_⟩
  decide +kernel

end Example

end Body

end NullFlow
