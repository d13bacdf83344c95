import NullFlow.Proofs.Analysis.Rules.Operations
/-!
The rules for calls and object creations compare.
-/

namespace NullFlow.Comparison

variable {pair : Comparison} {context : Context} {ty? : Option Ty} {signature : Signature}

section Arguments

variable {arguments : List (Argument Part)}

/-- The value of every argument keeps to some outline. -/
def ArgumentsTrack (pair : Comparison) (arguments : List (Argument Part)) : Prop :=
  ∀ argument ∈ arguments, ∃ outline, pair.Tracks outline argument.value.get

theorem ArgumentsTrack.tail {argument : Argument Part}
    (tracks : ArgumentsTrack pair (argument :: arguments)) : ArgumentsTrack pair arguments :=
  fun other member => tracks other (List.mem_cons_of_mem _ member)

/-- Arguments that track are evaluated in related stores, from any position and any bindings on. -/
theorem evaluateArguments_runs (tracks : ArgumentsTrack pair arguments) (position : Nat)
    {bindingsOne bindingsTwo : Bindings} {first second : Session} {one two : Store}
    (related : pair.Related pair.stores first second one two) :
    pair.Runs (.both .any (.both .any pair.stores)) first second
      (evaluateArguments context signature position arguments bindingsOne one)
      (evaluateArguments context signature position arguments bindingsTwo two) := by
  induction arguments generalizing position bindingsOne bindingsTwo first second one two with
  | nil => exact .pure (related.any.both (related.any.both related))
  | cons argument rest ih =>
      obtain ⟨outline, tracksValue⟩ := tracks argument List.mem_cons_self
      unfold evaluateArguments
      cases argument.value.lambda? with
      | some analyze => exact ih tracks.tail (position + 1) related
      | none =>
          refine (tracksValue.value related).bind related.reached ?_
          rintro first' second' ⟨valueOne, one⟩ ⟨valueTwo, two⟩ _ _ values
          refine (ih tracks.tail (position + 1) values.stores_of_values).bind values.reached ?_
          rintro first'' second'' ⟨_, _, one⟩ ⟨_, _, two⟩ _ _ after
          exact .pure (after.any.both (after.any.both after.right.right))

/-- The analysis of lambdas touches nothing but the slot table. -/
theorem evaluateLambdas_alone (tracks : ArgumentsTrack pair arguments) (types : Instantiation)
    (position : Nat) (bindings : Bindings) {session : Session}
    (fits : pair.layout.Fits session.slots) :
    pair.Alone .any session
      (evaluateLambdas context signature types position arguments bindings) := by
  induction arguments generalizing position bindings session with
  | nil => exact ⟨.refl fits, trivial⟩
  | cons argument rest ih =>
      obtain ⟨outline, tracksValue⟩ := tracks argument List.mem_cons_self
      unfold evaluateLambdas
      cases isLambda : argument.value.lambda? with
      | none => exact ih tracks.tail (position + 1) bindings fits
      | some analyze =>
          have alone := fun delegate? => tracksValue.lambda analyze isLambda delegate? fits
          exact (alone _).bind (ih tracks.tail (position + 1) _ (alone _).grows.fits)

/-- A check of an argument is silent: it reports and does nothing else. -/
theorem Silent.checkArgument (types : Instantiation) (argument : Evaluated) :
    Silent (checkArgument context signature types argument) := by
  unfold NullFlow.checkArgument
  split
  · exact .pure _
  · exact .checkConversion _ _ _ _ _

/-- Passing arguments that track keeps two runs related. -/
theorem passArguments_runs (tracks : ArgumentsTrack pair arguments)
    {typesOne typesTwo : Instantiation} {dynamicOne dynamicTwo : Bool} {first second : Session}
    {one two : Store} (related : pair.Related pair.stores first second one two) :
    pair.Runs (.both .any pair.stores) first second
      (passArguments context signature arguments typesOne dynamicOne one)
      (passArguments context signature arguments typesTwo dynamicTwo two) := by
  refine (evaluateArguments_runs tracks 0 related).bind related.reached ?_
  rintro first1 second1 ⟨evaluatedOne, bindingsOne, one⟩ ⟨evaluatedTwo, bindingsTwo, two⟩ _ _ after
  have stores := after.right.right
  have lambdas : pair.Runs .any first1 second1
      (evaluateLambdas context signature typesOne 0 arguments bindingsOne)
      (evaluateLambdas context signature typesTwo 0 arguments bindingsTwo) :=
    ⟨evaluateLambdas_alone tracks _ _ _ stores.layoutFirst,
      evaluateLambdas_alone tracks _ _ _ stores.layoutSecond, fun _ => trivial⟩
  refine lambdas.bind stores.reached fun growsFirst growsSecond _ => ?_
  have stores := stores.grow growsFirst growsSecond
  refine .silent_ite stores (.forM (fun _ => .checkArgument _ _) _)
    (.forM (fun _ => .checkArgument _ _) _) fun growsFirst growsSecond => ?_
  have stores := stores.grow growsFirst growsSecond
  exact .pure (stores.any.both stores)

end Arguments

section Calls

/-- Receivers by whether calls on them are resolved at run time. -/
def receivers : View (Option Ty) where
  fits _ _ := True
  alike one two := one.any Ty.isDynamic = two.any Ty.isDynamic
  grow _ _ := trivial

theorem any_isDynamic_shape (ty? : Option Ty) :
    (ty?.map Ty.shape).any Ty.isDynamic = ty?.any Ty.isDynamic := by
  cases ty? with
  | none => rfl
  | some ty => exact Ty.isDynamic_shape ty

/-- The receiver of a call is evaluated and dereferenced in related stores. -/
theorem evaluateReceiver_runs {receiver? : Option Part}
    (tracks : ∀ receiver ∈ receiver?, ∃ outline, pair.Tracks outline receiver.get)
    {first second : Session} {one two : Store}
    (related : pair.Related pair.stores first second one two) :
    pair.Runs (.both receivers pair.stores) first second
      (evaluateReceiver context receiver? one) (evaluateReceiver context receiver? two) := by
  cases receiver? with
  | none =>
      have none : pair.Related receivers first second none none :=
        related.with trivial trivial fun _ => rfl
      exact .pure (none.both related)
  | some receiver =>
      obtain ⟨outline, tracksReceiver⟩ := tracks receiver rfl
      refine (tracksReceiver.value related).bind related.reached ?_
      rintro first' second' ⟨valueOne, one⟩ ⟨valueTwo, two⟩ _ _ values
      refine .bind_dereference values ?_
      intro first'' second'' one two _ _ values
      have receivers : pair.Related receivers first'' second'' valueOne.ty? valueTwo.ty? := by
        refine values.with trivial trivial fun known => ?_
        change valueOne.ty?.any Ty.isDynamic = valueTwo.ty?.any Ty.isDynamic
        rw [← any_isDynamic_shape, ← any_isDynamic_shape valueTwo.ty?]
        exact congrArg _ (values.alike known).1.shape
      exact .pure (receivers.both values.stores_of_values)

/-- The type of a call of which the declared type is closed. -/
def callType (signature : Signature) (ty? : Option Ty) (dynamic : Bool) : Ty :=
  if dynamic then ty?.getD (.dynamic .plain) else signature.returnType

/-- The result of a method with a closed return type does not depend on its arguments. -/
theorem callResult_of_closed (closed : signature.returnType.isClosed = true) (ty? : Option Ty)
    (dynamic : Bool) (types : Instantiation) : callResult signature ty? dynamic types =
      .loose (callType signature ty? dynamic).declaredState
        (some (callType signature ty? dynamic)) := by
  have notMentioned := signature.returnType.mentionsAny_of_closed signature.typeParameters closed
  simp only [callResult, callType, signature.returnType.substitute_of_closed types closed,
    notMentioned, Bool.false_eq_true, if_false]

/-- The result of a flat call has a flat type. -/
theorem flat_callType (flatType : ty?.all Ty.isFlat = true)
    (flatReturn : signature.returnType.isFlat = true) (dynamic : Bool) :
    (callType signature ty? dynamic).isFlat = true := by
  unfold callType
  split
  · cases ty? with
    | none => rfl
    | some ty => exact flatType
  · exact flatReturn

/-- A call of a method with a flat closed return type tracks if its parts do. -/
theorem callRule_tracks {receiver? : Option Part} {arguments : List (Argument Part)}
    (flatType : ty?.all Ty.isFlat = true) (flatReturn : signature.returnType.isFlat = true)
    (closed : signature.returnType.isClosed = true)
    (tracksReceiver : ∀ receiver ∈ receiver?, ∃ outline, pair.Tracks outline receiver.get)
    (tracksArguments : ArgumentsTrack pair arguments) :
    pair.ValueTracks false (callRule context ty? receiver? signature arguments) := by
  intro first second one two related
  refine (evaluateReceiver_runs tracksReceiver related).bind related.reached ?_
  rintro first1 second1 ⟨typeOne?, one⟩ ⟨typeTwo?, two⟩ _ _ received
  refine (passArguments_runs tracksArguments received.right).bind received.reached ?_
  rintro first2 second2 ⟨typesOne, one⟩ ⟨typesTwo, two⟩ growsFirst growsSecond passed
  have received := received.grow growsFirst growsSecond
  have stores := passed.right
  simp only [callResult_of_closed closed]
  have flat := flat_callType flatType flatReturn
  have dynamic : first2.slots.Extends pair.target →
      (typeOne?.any Ty.isDynamic || anyDynamic arguments) =
        (typeTwo?.any Ty.isDynamic || anyDynamic arguments) := fun known => by
    rw [show typeOne?.any Ty.isDynamic = typeTwo?.any Ty.isDynamic from received.left.alike known]
  refine .pure (stores.loose (stores.with trivial trivial fun known => ?_) (flat _) (flat _)
    fun known => ?_)
  · rw [dynamic known]
    exact Bound.refl _
  · rw [dynamic known]

end Calls

section Creations

mutual

/-- The values of an entry keep to outlines, and its members are covered by the layout. -/
def InitializerTracks (pair : Comparison) : Initializer Part → Prop
  | .value member part => pair.layout.coversMember member = true ∧
      ∃ outline, pair.Tracks outline part.get
  | .nested member entries => pair.layout.coversMember member = true ∧
      InitializersTrack pair entries

def InitializersTrack (pair : Comparison) : List (Initializer Part) → Prop
  | [] => True
  | entry :: rest => InitializerTracks pair entry ∧ InitializersTrack pair rest

end

def seeds (pair : Comparison) : View (List Seed) where
  fits _ seeds := ∀ seed ∈ seeds, seed.Fits pair.layout
  alike := List.Forall₂ (Seed.Alike pair.bound)
  grow _ fits := fits

theorem Related.appendSeeds {first second : Session} {one two three four : List Seed}
    (left : pair.Related pair.seeds first second one two)
    (right : pair.Related pair.seeds first second three four) :
    pair.Related pair.seeds first second (one ++ three) (two ++ four) := by
  refine left.with (fun seed member => ?_) (fun seed member => ?_)
    fun known => List.rel_append (left.alike known) (right.alike known)
  · exact (List.mem_append.mp member).elim (left.fitsFirst seed) (right.fitsFirst seed)
  · exact (List.mem_append.mp member).elim (left.fitsSecond seed) (right.fitsSecond seed)

/-- Initializers that track plant the same members in related states. -/
theorem seedMembers_runs : ∀ (initializers : List (Initializer Part)) (owner? : Option Ty)
    (path : List (String × FlowState)),
    (∀ step ∈ path, pair.layout.memberState step.1 = step.2) →
    InitializersTrack pair initializers → ∀ {first second : Session} {one two : Store},
    pair.Related pair.stores first second one two →
    pair.Runs (.both pair.seeds pair.stores) first second
      (seedMembers context owner? path initializers one)
      (seedMembers context owner? path initializers two)
  | [], owner?, path, _, _, first, second, one, two, related => by
      unfold seedMembers
      have none : pair.Related pair.seeds first second [] [] :=
        related.with (fun _ member => by cases member) (fun _ member => by cases member)
          fun _ => .nil
      exact .pure (none.both related)
  | .value member part :: rest, owner?, path, fits, tracks, first, second, one, two, related => by
      obtain ⟨⟨covered, outline, tracksPart⟩, tracksRest⟩ := tracks
      obtain ⟨flat, closed, known⟩ := Layout.state_of_member covered
      unfold seedMembers
      simp only [context.memberType?_of_closed _ closed, Option.map_some, Option.getD_some]
      refine (tracksPart.value related).bind related.reached ?_
      rintro first1 second1 ⟨valueOne, one⟩ ⟨valueTwo, two⟩ _ _ values
      refine .silent_left values (.checkConversion _ _ _ _ _) fun growsFirst =>
        .silent_right (values.grow growsFirst (.refl values.layoutSecond))
          (.checkConversion _ _ _ _ _) fun growsSecond => ?_
      have values := values.grow growsFirst growsSecond
      refine (seedMembers_runs rest owner? path fits tracksRest values.stores_of_values).bind
        values.reached ?_
      rintro first2 second2 ⟨seedsOne, one⟩ ⟨seedsTwo, two⟩ growsFirst growsSecond after
      have values := values.grow growsFirst growsSecond
      have fitsSeed : ∀ state, Seed.Fits pair.layout
          ⟨path ++ [(member.name, member.ty.declaredState)], state⟩ := fun _ =>
        Layout.follows_snoc fits covered
      have seeds : pair.Related pair.seeds first2 second2
          (⟨path ++ [(member.name, member.ty.declaredState)], valueOne.state⟩ :: seedsOne)
          (⟨path ++ [(member.name, member.ty.declaredState)], valueTwo.state⟩ :: seedsTwo) :=
        after.with (List.forall_mem_cons.mpr ⟨fitsSeed _, after.fitsFirst.1⟩)
          (List.forall_mem_cons.mpr ⟨fitsSeed _, after.fitsSecond.1⟩)
          fun known => .cons ⟨rfl, (values.alike known).1.state⟩ (after.alike known).1
      exact .pure (seeds.both after.right)
  | .nested member entries :: rest, owner?, path, fits, tracks, first, second, one, two,
      related => by
      obtain ⟨⟨covered, tracksEntries⟩, tracksRest⟩ := tracks
      obtain ⟨flat, closed, known⟩ := Layout.state_of_member covered
      unfold seedMembers
      simp only [context.memberType?_of_closed _ closed, Option.map_some, Option.getD_some]
      refine (seedMembers_runs entries (some member.ty) _ (Layout.follows_snoc fits covered)
        tracksEntries related).bind related.reached ?_
      rintro first1 second1 ⟨innerOne, one⟩ ⟨innerTwo, two⟩ _ _ inner
      refine (seedMembers_runs rest owner? path fits tracksRest inner.right).bind
        inner.reached ?_
      rintro first2 second2 ⟨restOne, one⟩ ⟨restTwo, two⟩ growsFirst growsSecond after
      have inner := inner.grow growsFirst growsSecond
      exact .pure ((inner.left.appendSeeds after.left).both after.right)

theorem construct_runs {constructor? : Option Signature} {arguments : List (Argument Part)}
    (tracks : ArgumentsTrack pair arguments) {first second : Session} {one two : Store}
    (related : pair.Related pair.stores first second one two) :
    pair.Runs pair.stores first second (construct context ty? constructor? arguments one)
      (construct context ty? constructor? arguments two) := by
  cases constructor? with
  | some signature =>
      refine (passArguments_runs tracks related).bind related.reached ?_
      rintro first' second' ⟨_, one⟩ ⟨_, two⟩ _ _ passed
      exact .pure passed.right
  | none =>
      unfold construct
      induction arguments generalizing first second one two with
      | nil => exact .pure related
      | cons argument rest ih =>
          obtain ⟨outline, tracksValue⟩ := tracks argument List.mem_cons_self
          simp only [List.foldlM_cons]
          have evaluated : pair.Runs pair.stores first second
              (Prod.snd <$> argument.value.value one) (Prod.snd <$> argument.value.value two) :=
            (tracksValue.value related).map Prod.snd (fun _ _ fits => fits.2.within)
              fun _ _ alike => alike.2
          exact evaluated.bind related.reached fun _ _ after => ih tracks.tail after

/-- A creation tracks if its arguments and its initializers do. -/
theorem createRule_tracks {constructor? : Option Signature} {arguments : List (Argument Part)}
    {initializers : List (Initializer Part)} (flatType : ty?.all Ty.isFlat = true)
    (tracksArguments : ArgumentsTrack pair arguments)
    (tracksInitializers : InitializersTrack pair initializers) :
    pair.ValueTracks false (createRule context ty? constructor? arguments initializers) := by
  intro first second one two related
  refine (construct_runs tracksArguments related).bind related.reached ?_
  intro first1 second1 one two _ _ stores
  refine (seedMembers_runs initializers ty? [] (by simp) tracksInitializers stores).bind
    stores.reached ?_
  rintro first2 second2 ⟨seedsOne, one⟩ ⟨seedsTwo, two⟩ _ _ after
  have created := after.right.loose (after.right.states .notNull)
    ((Ty.all_isFlat_map_withState ty? .notNull).trans flatType)
    ((Ty.all_isFlat_map_withState ty? .notNull).trans flatType) fun _ => rfl
  exact .pure (created.with ⟨⟨created.fitsFirst.1.inside, created.fitsFirst.1.flat,
      after.fitsFirst.1⟩, created.fitsFirst.2⟩
    ⟨⟨created.fitsSecond.1.inside, created.fitsSecond.1.flat, after.fitsSecond.1⟩,
      created.fitsSecond.2⟩
    fun known => ⟨⟨rfl, Bound.refl _, rfl, (after.alike known).1⟩, (after.alike known).2⟩)

end Creations

end NullFlow.Comparison
