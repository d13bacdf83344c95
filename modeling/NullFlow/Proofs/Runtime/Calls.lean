import NullFlow.Proofs.Runtime.Soundness
/-!
The rules for calls and object creations are sound. A receiver that is null stops the execution, and
the analysis reports it.
-/

namespace NullFlow

variable {context : Context} {layout : Layout} {ty? : Option Ty} {signature : Signature}

/-- The analysis has come to a store that covers the memory of the execution. -/
structure Arrives (layout : Layout) (before after : Session) (store : Store) (memory : Memory) :
    Prop where
  slots : before.slots.Extends after.slots
  fits : layout.Fits after.slots
  covers : store.Covers layout after.slots memory

namespace Arrives

variable {before after later : Session} {store : Store} {memory : Memory}

/-- An action that leaves the table alone lets the store arrive as before. -/
theorem silent (arrives : Arrives layout before after store memory)
    (same : later.slots = after.slots) : Arrives layout before later store memory :=
  ⟨same ▸ arrives.slots, same ▸ arrives.fits, same ▸ arrives.covers⟩

/-- The same from an earlier session on. -/
theorem since {first : Session} (arrives : Arrives layout before after store memory)
    (extended : first.slots.Extends before.slots) : Arrives layout first after store memory :=
  ⟨extended.trans arrives.slots, arrives.fits, arrives.covers⟩

/-- Where a value is yielded, its store arrives. -/
theorem of_yields {result : Value × Store} {answer : Bool × Memory}
    (yields : Yields layout before after result answer) :
    Arrives layout before after result.2 answer.2 := ⟨yields.slots, yields.fits, yields.covers⟩

end Arrives

section Receivers

def Ty.isNamed : Ty → Bool
  | named .. => true
  | _ => false

/-- Wherever control comes to the expression, its value has a named type. -/
def Meaning.IsNamed (meaning : Meaning) : Prop :=
  ∀ ⦃session : Session⦄ ⦃store : Store⦄, store.isReachable = true →
    (meaning.value store session).1.1.ty?.any Ty.isNamed = true

/-- The type of the value is named, besides all that covers the answer. -/
theorem Meaning.Sound.value_named {method : String} {meaning : Meaning} {behaviour : Behaviour}
    (sound : meaning.Sound layout method behaviour) (isNamed : meaning.IsNamed) {session : Session}
    {store : Store} {memory : Memory} (fits : layout.Fits session.slots)
    (covers : store.Covers layout session.slots memory) :
    Attends method session (meaning.value store) (behaviour.value memory)
      fun after result answer => Yields layout session after result answer ∧
        result.1.ty?.any Ty.isNamed = true :=
  (sound.value fits covers).noting (isNamed covers.reachable)

/-- A receiver of a named type is not dynamic, so its dereference is reported. -/
theorem isDynamic_of_named {ty? : Option Ty} (isNamed : ty?.any Ty.isNamed = true) :
    ty?.any Ty.isDynamic = false := by
  cases ty? with
  | none => rfl
  | some ty =>
      cases ty with
      | named name arguments mark => rfl
      | _ => cases isNamed

variable (context) in
/-- A receiver of a named type is reported if it may be null. -/
theorem dereference_attends {before after : Session} {result : Value × Store}
    {answer : Bool × Memory} (yields : Yields layout before after result answer)
    (isNamed : result.1.ty?.any Ty.isNamed = true) (span : Span) :
    Attends context.method after (context.dereference result.1 span result.2)
      (if answer.1 then throw (answer.2.stopAt span) else return answer.2)
      (Arrives layout before) := by
  cases isNull : answer.1 with
  | true =>
      intro receiver stopped speaks
      obtain rfl : span = receiver := Option.some.inj stopped
      have checkable : (result.1.ty?.any fun ty => !(ty.isError || ty.isNull || ty.isValue)) = true := by
        cases isTy : result.1.ty? with
        | none => rw [isTy] at isNamed; cases isNamed
        | some ty =>
            rw [isTy] at isNamed
            cases ty with
            | named name arguments mark => rfl
            | _ => cases isNamed
      have state : result.1.state.isMaybeNull = true := by rw [yields.value.state isNull]; rfl
      have emits : context.dereference result.1 span result.2 = (do
          Analysis.emit (.dereference span context.method)
          return result.2.assign result.1.slot? .notNull) := by
        unfold Context.dereference
        rw [yields.covers.reachable, state, checkable]
        rfl
      rw [emits] at speaks ⊢
      have muted := (Recorder.Precedes.emit after.recorder
        (Diagnostic.dereference span context.method)).muted
      exact Recorder.mem_emit (muted ▸ speaks) rfl
  | false =>
      have same := (Comparison.Silent.dereference context result.1 span result.2 after).1
      refine Arrives.silent ⟨yields.slots, yields.fits, ?_⟩ same
      rw [Comparison.dereference_fst]
      refine yields.covers.learn yields.fits yields.value.place fun null => ?_
      rw [isNull] at null
      cases null

/-- A receiver that is null stops the run, and the dereference is reported. -/
theorem evaluateReceiver_sound {receiver? : Option Part} {behaviour? : Option Behaviour}
    (sound : Option.Rel (fun receiver behaviour =>
      receiver.get.Sound layout context.method behaviour ∧ receiver.get.IsNamed) receiver? behaviour?)
    {session : Session} {store : Store} {memory : Memory} (fits : layout.Fits session.slots)
    (covers : store.Covers layout session.slots memory) :
    Attends context.method session (evaluateReceiver context receiver? store)
      (Behaviour.receive behaviour? memory) fun after result memory =>
        result.1.any Ty.isDynamic = false ∧ Arrives layout session after result.2 memory := by
  cases sound with
  | none => exact .pure ⟨rfl, .refl _, fits, covers⟩
  | @some receiver behaviour both =>
      obtain ⟨ofReceiver, isNamed⟩ := both
      refine (ofReceiver.value_named isNamed fits covers).bind
        (fun _ => .bind (.dereference _ _ _ _) fun _ => .pure _)
        fun {after result answer} ⟨yields, named⟩ => ?_
      have attends := dereference_attends context yields named receiver.span
      rw [show receiver.span = behaviour.span from ofReceiver.span] at attends ⊢
      refine attends.finish (fun _ => .pure _) fun arrives => .pure ⟨?_, arrives⟩
      exact isDynamic_of_named named

end Receivers

section Arguments

variable {arguments : List (Argument Part)} {behaviours : List Behaviour}

/-- All arguments are sound. -/
def SoundArguments (layout : Layout) (method : String) (arguments : List (Argument Part))
    (behaviours : List Behaviour) : Prop :=
  List.Forall₂ (fun argument behaviour => argument.value.get.Sound layout method behaviour)
    arguments behaviours

/-- Sound arguments only add to what is recorded. -/
theorem SoundArguments.records {method : String}
    (sound : SoundArguments layout method arguments behaviours) :
    Records.OfArguments arguments := by
  induction sound with
  | nil => exact fun _ never => by cases never
  | cons ofArgument _ ih =>
      intro other member
      rcases List.mem_cons.mp member with rfl | inRest
      · exact ofArgument.orderly.records
      · exact ih other inRest

/-- Evaluating the arguments keeps the store above the memory. -/
theorem evaluateArguments_sound
    (sound : SoundArguments layout context.method arguments behaviours) (position : Nat)
    (bindings : Bindings) {session : Session} {store : Store} {memory : Memory}
    (fits : layout.Fits session.slots) (covers : store.Covers layout session.slots memory) :
    Attends context.method session
      (evaluateArguments context signature position arguments bindings store)
      (Behaviour.each behaviours memory) fun after result memory =>
        Arrives layout session after result.2.2 memory := by
  induction sound generalizing position bindings session store memory with
  | nil => exact .pure ⟨.refl _, fits, covers⟩
  | @cons argument behaviour rest others ofArgument ofRest ih =>
      have notLambda : argument.value.lambda? = none := ofArgument.orderly.records.lambda
      unfold evaluateArguments
      rw [notLambda]
      refine (ofArgument.value fits covers).bind
        (fun _ => .bind (.evaluateArguments context signature (SoundArguments.records ofRest) _ _ _)
          fun _ => .pure _) fun {after result answer} yields => ?_
      refine (ih (position + 1) _ yields.fits yields.covers).finish (fun _ => .pure _)
        fun arrives => .pure (arrives.since yields.slots)

/-- Passing the arguments, checks and lambdas included, keeps the store above the memory. -/
theorem passArguments_sound (sound : SoundArguments layout context.method arguments behaviours)
    (types : Instantiation) (dynamic : Bool) {session : Session} {store : Store} {memory : Memory}
    (fits : layout.Fits session.slots) (covers : store.Covers layout session.slots memory) :
    Attends context.method session
      (passArguments context signature arguments types dynamic store)
      (Behaviour.each behaviours memory) fun after result memory =>
        Arrives layout session after result.2 memory := by
  have records := SoundArguments.records sound
  rw [Records.passArguments_eq context signature records]
  refine (evaluateArguments_sound sound 0 [] fits covers).finish
    (Records.settle_records context signature types dynamic) fun {after result memory} arrives => ?_
  cases dynamic with
  | true => exact .pure arrives
  | false =>
      exact .silent (.forM (fun _ => .checkArgument _ _) _) fun same => .pure (arrives.silent same)

end Arguments

section Calls

/-- A value of a declared type can be null only if the type lets it. -/
theorem declared_covers {ty : Ty} {memory : Memory} (null : (memory.declared ty).1 = true) :
    ty.declaredState = .maybeNull := by
  rw [Memory.declared] at null
  cases state : ty.declaredState with
  | notNull =>
      rw [state] at null
      cases null
  | maybeNull => rfl

/-- A call of a method without inner positions in its type returns what the type declares. -/
theorem callRule_sound {receiver? : Option Part} {behaviour? : Option Behaviour}
    {arguments : List (Argument Part)} {behaviours : List Behaviour}
    (closed : signature.returnType.isClosed = true) (notDynamic : anyDynamic arguments = false)
    (ofReceiver : Option.Rel (fun receiver behaviour =>
      receiver.get.Sound layout context.method behaviour ∧ receiver.get.IsNamed)
      receiver? behaviour?)
    (ofArguments : SoundArguments layout context.method arguments behaviours) :
    SoundValue layout context.method (callRule context ty? receiver? signature arguments)
      (Behaviour.call behaviour? behaviours signature) := by
  intro session store memory fits covers
  have records := SoundArguments.records ofArguments
  refine (evaluateReceiver_sound ofReceiver fits covers).bind
    (fun _ => .bind (.passArguments context signature records _ _ _) fun _ => .pure _)
    fun {after received memory} ⟨static, arrives⟩ => ?_
  refine (passArguments_sound ofArguments _ _ arrives.fits arrives.covers).bind
    (fun _ => .pure _) fun {later passed memory} passes => .pure ?_
  have result : callResult signature ty? (received.1.any Ty.isDynamic || anyDynamic arguments)
      passed.1 = .loose signature.returnType.declaredState (some signature.returnType) := by
    rw [Comparison.callResult_of_closed closed, static, notDynamic]
    rfl
  rw [result]
  have same := Evaluation.Frames.declared signature.returnType memory
  exact ⟨arrives.slots.trans passes.slots, passes.fits, passes.covers.frame same,
    .loose declared_covers _⟩

/-- A creation without arguments and initializers is a value that is not null. -/
theorem createRule_eq (constructor? : Option Signature) (store : Store) :
    createRule context ty? constructor? [] [] store =
      pure (⟨.notNull, ty?.map (Ty.withState .notNull), none, []⟩, store) := by
  unfold createRule
  simp only [seedMembers]
  cases constructor? <;> rfl

/-- A new object is not null. -/
theorem createRule_sound (constructor? : Option Signature) :
    SoundValue layout context.method (createRule context ty? constructor? [] [])
      fun memory => return (false, memory) := by
  intro session store memory fits covers
  rw [createRule_eq]
  exact .pure ⟨.refl _, fits, covers, .loose (fun null => by cases null) _⟩

end Calls

end NullFlow
