import NullFlow.Analysis.Call
import NullFlow.Proofs.Body.LeastSolutions
import NullFlow.Proofs.Types.Substitution
/-!
What a call learns of the type parameters in its signature, and the type that it yields. A call yields
the returned type for the type arguments that are inferred from its arguments. A method that calls
itself infers types in which its own type parameters occur, and these calls keep the type that the
front end gave them.
-/

namespace NullFlow

/-- What is known of a call once its receiver and its arguments were evaluated. -/
structure CallView where
  /-- The call is resolved at run time. -/
  dynamic : Bool
  /-- What the type parameters of the owner stand for in the receiver. -/
  receiverTypes : Instantiation
  /-- What the arguments tell of the type parameters of the callee. -/
  inferred : Bindings

/-- What the type parameters of the call stand for. -/
def CallView.types (view : CallView) : Instantiation :=
  view.receiverTypes.extend view.inferred.instantiation

section View

variable (context : Context) (receiver? : Option Part) (signature : Signature)
  (arguments : List (Argument Part))

/-- Evaluates the receiver of a call and its arguments, lambdas last. -/
def callView (store : Store) : Analysis CallView := do
  let (receiverTy?, store) ← evaluateReceiver context receiver? store
  let receiverTypes := context.instanceTypes receiverTy? signature.owner?
  let (_, bindings, _) ← evaluateArguments context signature 0 arguments [] store
  let inferred ← evaluateLambdas context signature receiverTypes 0 arguments bindings
  return ⟨receiverTy?.any Ty.isDynamic || anyDynamic arguments, receiverTypes, inferred⟩

/-- The checks of the arguments do not matter to what the type parameters stand for. -/
theorem passArguments_types (receiverTypes : Instantiation) (dynamic : Bool) (store : Store)
    (session : Session) :
    (passArguments context signature arguments receiverTypes dynamic store session).1.1 =
      let evaluated := evaluateArguments context signature 0 arguments [] store session
      receiverTypes.extend (evaluateLambdas context signature receiverTypes 0 arguments
        evaluated.1.2.1 evaluated.2).1.instantiation := by
  cases dynamic <;> rfl

/-- A call has the value of its signature for the types that its view knows. -/
theorem callRule_value (ty? : Option Ty) (store : Store) (session : Session) :
    (callRule context ty? receiver? signature arguments store session).1.1 =
      let view := (callView context receiver? signature arguments store session).1
      callResult signature ty? view.dynamic view.types := by
  let received := evaluateReceiver context receiver? store session
  let dynamic := received.1.1.any Ty.isDynamic || anyDynamic arguments
  have passed := passArguments_types context signature arguments
    (context.instanceTypes received.1.1 signature.owner?) dynamic received.1.2 received.2
  exact congrArg (callResult signature ty? dynamic) passed

end View

namespace Signature

variable (signature : Signature) (types : Instantiation)

/-- The type that the callee returns, for what its type parameters stand for. -/
def returned : Ty := signature.returnType.substitute types

/-- Some type parameter of the returned type stands for a type in which type parameters of the
callee occur in turn. -/
def Recurs : Prop :=
  ∃ name ∈ signature.returnType.parameters, ∃ bound, types name = some bound ∧
    ∃ other ∈ bound.parameters, other ∈ signature.typeParameters

/-- Every type parameter of the callee that the returned type depends on stands for some type. -/
def Settles : Prop :=
  ∀ name ∈ signature.returnType.parameters, name ∈ signature.typeParameters →
    (types name).isSome

instance : Decidable (signature.Settles types) :=
  inferInstanceAs (Decidable (∀ name ∈ _, name ∈ _ → _))

variable {signature types}

/-- Once all is settled, type parameters of the callee are left in the returned type only if they
are part of what it was settled with. -/
theorem mentions_returned_iff (settles : signature.Settles types) :
    (signature.returned types).mentionsAny signature.typeParameters = true ↔
      signature.Recurs types := by
  rw [Ty.mentionsAny_iff, returned]
  simp only [Ty.mem_parameters_substitute]
  constructor
  · rintro ⟨other, ⟨name, inType, unbound | ⟨bound, isBound, inBound⟩⟩, ofCallee⟩
    · obtain ⟨unbound, rfl⟩ := unbound
      exact absurd (settles other inType ofCallee) (by simp [unbound])
    · exact ⟨name, inType, bound, isBound, other, inBound, ofCallee⟩
  · rintro ⟨name, inType, bound, isBound, other, inBound, ofCallee⟩
    exact ⟨other, ⟨name, inType, Or.inr ⟨bound, isBound, inBound⟩⟩, ofCallee⟩

/-- Where the return type names parameters of the caller again, the call has the type that the front
end gave it. -/
theorem callResult_of_recurs (settles : signature.Settles types) (recurs : signature.Recurs types)
    (ty? : Option Ty) :
    callResult signature ty? false types =
      let ty := ty?.getD (signature.returned types)
      .loose ty.declaredState (some ty) := by
  have mentions := (mentions_returned_iff settles).mpr recurs
  rw [returned] at mentions
  simp [callResult, mentions, returned]

/-- Where it does not, the call has the substituted return type. -/
theorem callResult_of_not_recurs (settles : signature.Settles types)
    (closed : ¬signature.Recurs types) (ty? : Option Ty) :
    callResult signature ty? false types =
      .loose (signature.returned types).declaredState (some (signature.returned types)) := by
  have mentions := mt (mentions_returned_iff settles).mp closed
  rw [returned] at mentions
  simp [callResult, mentions, returned]

end Signature

/-- What is inferred settles the returned type. -/
theorem CallView.settles {signature : Signature} {view : CallView}
    (inferred : signature.Settles view.inferred.instantiation) :
    signature.Settles view.types := by
  intro name inType ofCallee
  obtain ⟨bound, isBound⟩ := Option.isSome_iff_exists.mp (inferred name inType ofCallee)
  simp [types, Instantiation.extend, isBound]

/-- A call of which all is inferred yields a type in its declared state. That type is the returned
type if and only if no type that was inferred for it mentions type parameters of the callee, or the
front end gave the call the returned type anyway. Otherwise the call keeps the type of the front
end. -/
theorem call_yields_returned_iff (context : Context) (receiver? : Option Expr)
    (signature : Signature) (arguments : List (Argument Expr)) (ty? : Option Ty) (span : Span)
    (facts : Facts) (session : Session) :
    let view := (callView context (delayOption (Meaning.ofNode context) receiver?) signature
      (delayArguments (Meaning.ofNode context) arguments) (.reachable facts) session).1
    let returned := signature.returned view.types
    view.dynamic = false → signature.Settles view.inferred.instantiation →
    ∃ ty, (((Expr.node ⟨.call receiver? signature arguments, ty?, span⟩).meaning context).value
        (.reachable facts) session).1.1 = .loose ty.declaredState (some ty) ∧
      (ty = returned ↔ ¬signature.Recurs view.types ∨ ty?.getD returned = returned) ∧
      (signature.Recurs view.types → ty = ty?.getD returned) := by
  intro view returned known inferred
  have yields : (((Expr.node ⟨.call receiver? signature arguments, ty?, span⟩).meaning
      context).value (.reachable facts) session).1.1 =
      callResult signature ty? view.dynamic view.types :=
    callRule_value context _ signature _ ty? (.reachable facts) session
  rw [known] at yields
  have settles := CallView.settles inferred
  by_cases recurs : signature.Recurs view.types
  · exact ⟨ty?.getD returned, yields.trans (Signature.callResult_of_recurs settles recurs ty?),
      by simp [recurs], fun _ => rfl⟩
  · exact ⟨returned, yields.trans (Signature.callResult_of_not_recurs settles recurs ty?),
      by simp [recurs], fun ofCallee => absurd ofCallee recurs⟩

namespace Body

section Example

/-- A method that returns its argument, of any type. -/
def echo : Signature :=
  ⟨"M", "M(T)", none, ["T"], [⟨"x", .parameter "T" .plain⟩], .parameter "T" .plain⟩

def echoContext : Context := ⟨plainClasses, "M", none, ⟨40, false⟩, false⟩

def echoSession : Session := ⟨.empty, .start false, [], false, 0⟩

/-- The first variable of a method. -/
def firstRead (ty : Ty) : Expr := .node ⟨.read ⟨⟨"x", ty, false⟩, 0⟩, some ty, .none⟩

/-- The value of the call of the method for a variable. -/
def echoed (argument : Ty) (ty? : Option Ty) : Value :=
  (((Expr.node ⟨.call none echo [⟨firstRead argument, none⟩], ty?, .none⟩).meaning
    echoContext).value Store.entry echoSession).1.1

/-- What is known of the call of the method for a variable. -/
def echoView (argument : Ty) : CallView :=
  (callView echoContext none echo
    (delayArguments (Meaning.ofNode echoContext) [⟨firstRead argument, none⟩]) Store.entry
    echoSession).1

/-- For an object that may be null the method yields one that may be null, although the front end
gave the call another type. -/
theorem echoed_nullable :
    (echoView nullableClass).dynamic = false ∧ echo.Settles (echoView nullableClass).inferred.instantiation ∧
      echoed nullableClass (some plainClass) = .loose .maybeNull (some nullableClass) := by
  have inferred : echo.Settles (echoView nullableClass).inferred.instantiation := by
    decide +kernel
  have bound : (echoView nullableClass).types "T" = some nullableClass := by with_unfolding_all rfl
  have closed : ¬echo.Recurs (echoView nullableClass).types := by
    rintro ⟨name, inType, ty, isBound, other, inBound, _⟩
    obtain rfl := List.mem_singleton.mp inType
    obtain rfl := Option.some.inj (bound.symm.trans isBound)
    cases inBound
  have known : (echoView nullableClass).dynamic = false := by decide +kernel
  obtain ⟨ty, yields, same, _⟩ := call_yields_returned_iff echoContext none echo
    [⟨firstRead nullableClass, none⟩] (some plainClass) .none SortedMap.empty echoSession known
    inferred
  have returned : echo.returned (echoView nullableClass).types = nullableClass := by
    with_unfolding_all rfl
  obtain rfl := (same.mpr (Or.inl closed)).trans returned
  exact ⟨known, inferred, yields⟩

/-- A method with a type parameter `T` that calls itself with its parameter, of type `T?`. A method
is called of what the call yields. -/
def recursiveCall : Body where
  name := "M"
  span? := none
  thisType? := none
  parameters := [0]
  returnType := .void
  locals := #[⟨"x", .parameter "T" .nullable, false⟩]
  exprs := #[⟨.read 0, some (.parameter "T" .nullable), .none⟩,
    ⟨.call none echo [⟨0, none⟩], some (.parameter "T" .plain), .none⟩,
    ⟨.call (some 1) ⟨"Foo", "C.Foo()", some "C", [], [], .void⟩ [], some .void, .none⟩]
  stmts := #[⟨.evaluate 2, .none⟩]
  root := 0

/-- The parameter binds `T` to `T?`, and the returned type is `T?` for that. But the call yields the
type `T` of the front end, which is not null, and the method call is not reported. -/
theorem recursiveCall_hides_nullable :
    ((echoView (.parameter "T" .nullable)).dynamic = false ∧
      echo.Settles (echoView (.parameter "T" .nullable)).inferred.instantiation ∧
      echo.returned (echoView (.parameter "T" .nullable)).types = .parameter "T" .nullable ∧
      echoed (.parameter "T" .nullable) (some (.parameter "T" .plain)) =
        .loose .notNull (some (.parameter "T" .plain))) ∧
    recursiveCall.validate = .ok () ∧ ∃ method, recursiveCall.method? = some method ∧
      method.analyze plainClasses ⟨40, false⟩ false = some ⟨[], none, 2, true⟩ := by
  have checked : (recursiveCall.method?.any fun method =>
      decide (method.analyze plainClasses ⟨40, false⟩ false = some ⟨[], none, 2, true⟩)) = true := by
    decide +kernel
  obtain ⟨method, found, analyzed⟩ := (Option.any_eq_true _ _).mp checked
  refine ⟨⟨by decide +kernel, by decide +kernel, by with_unfolding_all rfl, rfl⟩, ?_⟩
  exact ⟨by decide +kernel, method, found, of_decide_eq_true analyzed⟩

end Example

end Body

end NullFlow
