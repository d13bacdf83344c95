import NullFlow.Proofs.Analysis.Regions.Rules
import NullFlow.Proofs.Code.Contents
/-!
Calls and object creations keep to a region if the meanings of the parts do. What an object
initializer establishes is written later, to wherever the object goes, so the members that it names
have to be among those of the region.
-/

namespace NullFlow

namespace Region

variable {region : Region} {context : Context} {ty? : Option Ty}

section Calls

variable {signature : Signature} {arguments : List (Argument Part)}

/-- Evaluating the arguments of a call keeps to the region, from any position and any bindings on.
-/
theorem evaluateArguments_runs : ∀ (position : Nat) {arguments : List (Argument Part)},
    (∀ argument ∈ arguments, region.Covers context argument.value.get) → ∀ (bindings : Bindings)
    {session : Session} {store : Store}, region.Holds session.slots store →
    region.Runs context session
      (evaluateArguments context signature position arguments bindings store)
      fun table result => region.Holds table result.2.2
  | _, [], _, _, _, _, holds => .pure holds
  | position, argument :: rest, each, bindings, session, store, holds => by
      have ofRest := fun bindings {session : Session} {store : Store}
          (holds : region.Holds session.slots store) =>
        evaluateArguments_runs (position + 1)
          (fun later member => each later (List.mem_cons_of_mem _ member)) bindings holds
      rw [evaluateArguments]
      split
      · exact ofRest bindings holds
      · apply ((each argument List.mem_cons_self).value holds).bind
        intro first after _ fits
        apply (ofRest _ fits.known.store).bind
        intro others last _ evaluated
        exact .pure evaluated

/-- The lambdas among the arguments keep to the region for any types that they are analyzed with. -/
theorem evaluateLambdas_runs (types : Instantiation) : ∀ (position : Nat)
    {arguments : List (Argument Part)},
    (∀ argument ∈ arguments, region.Covers context argument.value.get) → ∀ (bindings : Bindings)
    {session : Session}, region.Runs context session
      (evaluateLambdas context signature types position arguments bindings) fun _ _ => True
  | _, [], _, _, _ => .pure trivial
  | position, argument :: rest, each, bindings, session => by
      have ofRest (bindings : Bindings) {session : Session} : region.Runs context session
          (evaluateLambdas context signature types (position + 1) rest bindings) fun _ _ => True :=
        evaluateLambdas_runs types (position + 1)
          (fun later member => each later (List.mem_cons_of_mem _ member)) bindings
      rw [evaluateLambdas]
      split
      · exact ofRest bindings
      · rename_i analyze isLambda
        have ofLambda := (each argument List.mem_cons_self).lambda analyze isLambda
        exact (ofLambda _ session).bind fun returned? after _ _ => ofRest _

variable (context signature) in
/-- Checking an argument against its parameter touches nothing but the recorder. -/
theorem checkArgument_silent (types : Instantiation) (argument : Evaluated) :
    Comparison.Silent (checkArgument context signature types argument) := by
  unfold checkArgument
  split
  · exact .pure _
  · exact .checkConversion _ _ _ _ _

/-- Passing the arguments of a call, lambdas included, keeps to the region. -/
theorem passArguments_admits
    (each : ∀ argument ∈ arguments, region.Covers context argument.value.get)
    (types : Instantiation) (dynamic : Bool) :
    region.Admits context (passArguments context signature arguments types dynamic)
      fun table result => region.Holds table result.2 := by
  intro session store holds
  apply (evaluateArguments_runs 0 each [] holds).bind
  rintro ⟨evaluated, bindings, store⟩ after _ holdsAfter
  apply (evaluateLambdas_runs types 0 each bindings).bind
  intro bindings inferred continuesInferred _
  dsimp only
  split
  · have checks := Comparison.Silent.forM
      (checkArgument_silent context signature (types.extend bindings.instantiation)) evaluated
    apply (Runs.silent checks).bind
    intro _ last continuesLast _
    exact .pure (region.holds_grow holdsAfter (continuesInferred.trans continuesLast).slots)
  · exact .pure (region.holds_grow holdsAfter continuesInferred.slots)

theorem evaluateReceiver_admits {receiver? : Option Part}
    (ofReceiver : ∀ receiver ∈ receiver?, region.Covers context receiver.get) :
    region.Admits context (evaluateReceiver context receiver?)
      fun table result => region.Holds table result.2 := by
  intro session store holds
  cases receiver? with
  | none => exact .pure holds
  | some receiver =>
      apply ((ofReceiver receiver rfl).value holds).bind
      intro value after _ fits
      apply (dereference_runs value.1 receiver.span fits.known).bind
      intro store last _ checked
      exact .pure checked

/-- A call keeps to the region if its receiver and its arguments do. -/
theorem callRule_admits {receiver? : Option Part}
    (ofReceiver : ∀ receiver ∈ receiver?, region.Covers context receiver.get)
    (each : ∀ argument ∈ arguments, region.Covers context argument.value.get) :
    region.Admits context (callRule context ty? receiver? signature arguments)
      region.ValueFits := by
  intro session store holds
  apply (evaluateReceiver_admits ofReceiver holds).bind
  intro receiverTy? after _ evaluated
  apply (passArguments_admits each _ _ evaluated).bind
  intro types last _ passed
  exact .pure (loose_fits _ _ passed)

/-- What the entries of an object initializer establish, and the store after them. -/
structure SeedsFit (region : Region) (table : SlotTable) (result : List Seed × Store) : Prop where
  plants : region.Plants result.1
  store : region.Holds table result.2

/-- The members of the path may be named. -/
def Follows (region : Region) (path : List (String × FlowState)) : Prop :=
  ∀ step ∈ path, region.Names step.1

/-- A path of members that may be named goes on with one more. -/
theorem Follows.snoc {path : List (String × FlowState)} (follows : region.Follows path)
    {name : String} (named : region.Names name) (declared : FlowState) :
    region.Follows (path ++ [(name, declared)]) := by
  intro step member
  rcases List.mem_append.mp member with earlier | last
  · exact follows step earlier
  · obtain rfl := List.mem_singleton.mp last
    exact named

theorem Plants.append {first second : List Seed} (early : region.Plants first)
    (late : region.Plants second) : region.Plants (first ++ second) := by
  intro seed member
  rcases List.mem_append.mp member with inFirst | inSecond
  · exact early seed inFirst
  · exact late seed inSecond

/-- A seed for a nested path joins the seeds after it. -/
theorem Plants.cons {path : List (String × FlowState)} (nested : path ≠ [])
    (follows : region.Follows path) (state : FlowState) {seeds : List Seed} (plants : region.Plants seeds) :
    region.Plants (⟨path, state⟩ :: seeds) := by
  intro seed member
  rcases List.mem_cons.mp member with rfl | later
  · exact ⟨nested, follows⟩
  · exact plants seed later

mutual

/-- One entry of an initializer seeds members that the code may name, and its value keeps to the
region. -/
theorem seedMember_admits (owner? : Option Ty) {path : List (String × FlowState)}
    (follows : region.Follows path) {rest : List (Initializer Part)}
    (ofRest : region.Admits context (seedMembers context owner? path rest) region.SeedsFit) :
    ∀ {entry : Initializer Part}, (∀ member ∈ entry.members, region.Names member.name) →
    (∀ part ∈ entry.values, region.Covers context part.get) →
    region.Admits context (seedMembers context owner? path (entry :: rest)) region.SeedsFit
  | .value member part, named, each => by
      intro session store holds
      rw [seedMembers]
      apply ((each part List.mem_cons_self).value holds).bind
      intro value after _ fits
      have reached := follows.snoc (named member List.mem_cons_self)
      dsimp only
      split
      · apply (Runs.silent (.checkConversion _ _ _ _ _)).bind
        intro _ checked continuesChecked _
        apply (ofRest (region.holds_grow fits.known.store continuesChecked.slots)).bind
        intro seeds last _ seeded
        exact .pure ⟨.cons (List.concat_ne_nil _ _) (reached _) _ seeded.plants, seeded.store⟩
      · apply (ofRest fits.known.store).bind
        intro seeds last _ seeded
        exact .pure ⟨.cons (List.concat_ne_nil _ _) (reached _) _ seeded.plants, seeded.store⟩
  | .nested member entries, named, each => by
      intro session store holds
      have reached := follows.snoc (named member List.mem_cons_self)
      rw [seedMembers]
      apply (seedMembers_admits _ (reached _)
        (fun inner inEntries => named inner (List.mem_cons_of_mem _ inEntries)) each holds).bind
      intro inner after _ seeded
      apply (ofRest seeded.store).bind
      intro seeds last _ seededRest
      exact .pure ⟨seeded.plants.append seededRest.plants, seededRest.store⟩

/-- The entries of an initializer, nested ones included, seed only members that the code may name.
-/
theorem seedMembers_admits (owner? : Option Ty) {path : List (String × FlowState)}
    (follows : region.Follows path) : ∀ {entries : List (Initializer Part)},
    (∀ member ∈ initializerMembers entries, region.Names member.name) →
    (∀ part ∈ initializerValues entries, region.Covers context part.get) →
    region.Admits context (seedMembers context owner? path entries) region.SeedsFit
  | [], _, _ => fun _ _ holds => by
      rw [seedMembers]
      exact .pure ⟨region.plants_nil, holds⟩
  | _ :: _, named, each =>
      seedMember_admits owner? follows
        (seedMembers_admits owner? follows
          (fun later member => named later (List.mem_append_right _ member))
          fun later member => each later (List.mem_append_right _ member))
        (fun member inEntry => named member (List.mem_append_left _ inEntry))
        fun part member => each part (List.mem_append_left _ member)

end

/-- The arguments of a constructor keep to the region, whether or not the constructor is known. -/
theorem construct_admits (constructor? : Option Signature)
    (each : ∀ argument ∈ arguments, region.Covers context argument.value.get) :
    region.Admits context (construct context ty? constructor? arguments) region.Holds := by
  intro session store holds
  cases constructor? with
  | none =>
      refine Runs.foldlM ?_ holds
      intro argument member store after _ holdsAfter
      exact ((each argument member).value holdsAfter).map Prod.snd fun _ _ fits => fits.known.store
  | some signature =>
      apply (passArguments_admits each _ _ holds).bind
      intro types after _ passed
      exact .pure passed

/-- A creation keeps to the region, and its value carries the seeds of its initializers. -/
theorem createRule_admits {constructor? : Option Signature}
    {initializers : List (Initializer Part)}
    (each : ∀ argument ∈ arguments, region.Covers context argument.value.get)
    (named : ∀ member ∈ initializerMembers initializers, region.Names member.name)
    (entries : ∀ part ∈ initializerValues initializers, region.Covers context part.get) :
    region.Admits context (createRule context ty? constructor? arguments initializers)
      region.ValueFits := by
  intro session store holds
  apply (construct_admits constructor? each holds).bind
  intro store after _ constructed
  apply (seedMembers_admits ty? (fun _ member => by cases member) named entries constructed).bind
  intro seeds last _ seeded
  exact .pure ⟨knows_none seeded.store, seeded.plants⟩

end Calls

end Region

end NullFlow
