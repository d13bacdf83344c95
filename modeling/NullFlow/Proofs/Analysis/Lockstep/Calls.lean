import NullFlow.Proofs.Analysis.Lockstep.Rules
import NullFlow.Proofs.Analysis.Rules.Calls
/-!
Calls and object creations keep two runs in lockstep.
-/

namespace NullFlow.Lockstep

variable {layout : Layout} {context : Context} {signature : Signature} {ty? : Option Ty}
variable {arguments : List (Argument Part)}

section Arguments

/-- Arguments that were evaluated for the same parameter. -/
structure EvaluatedOrdered (layout : Layout) (table : SlotTable) (one two : Evaluated) : Prop where
  value : one.value.Ordered layout table two.value
  parameter : one.parameter? = two.parameter?
  span : one.span = two.span
  basic : ∀ parameter ∈ one.parameter?, parameter.ty.isBasic = true

/-- Evaluated arguments beside the bindings, of which nothing is known, and the store. -/
def passed (layout : Layout) (table : SlotTable) (one two : List Evaluated × Bindings × Store) :
    Prop :=
  List.Forall₂ (EvaluatedOrdered layout table) one.1 two.1 ∧ one.2.2.Ordered table two.2.2

theorem parameter?_mem {position : Nat} {name? : Option String} {parameter : Parameter}
    (found : signature.parameter? position name? = some parameter) :
    parameter ∈ signature.parameters := by
  cases name? with
  | none => exact List.mem_of_getElem? found
  | some name => exact List.mem_of_find?_eq_some found

/-- Arguments that rise are evaluated in lockstep, from any position and any bindings on. -/
theorem evaluateArguments_runs
    (basic : ∀ parameter ∈ signature.parameters, parameter.ty.isBasic = true)
    (rise : ∀ argument ∈ arguments, Rises layout argument.value.get) (position : Nat)
    {bindingsOne bindingsTwo : Bindings} {first second : Session} {one two : Store}
    (sessions : Lockstep layout first second) (stores : one.Ordered first.slots two) :
    Runs layout (passed layout) first second
      (evaluateArguments context signature position arguments bindingsOne one)
      (evaluateArguments context signature position arguments bindingsTwo two) := by
  induction arguments generalizing position bindingsOne bindingsTwo first second one two with
  | nil => exact .pure sessions ⟨.nil, stores⟩
  | cons argument rest ih =>
      obtain ⟨rises, riseRest⟩ := List.forall_mem_cons.mp rise
      have noLambda : argument.value.lambda? = none := rises.noLambda
      unfold evaluateArguments
      simp only [noLambda]
      refine (rises.value sessions stores).bind ?_
      rintro first1 second1 ⟨valueOne, one⟩ ⟨valueTwo, two⟩ _ sessions ⟨values, stores⟩
      refine (ih riseRest (position + 1) sessions stores).bind ?_
      rintro first2 second2 ⟨laterOne, _, one⟩ ⟨laterTwo, _, two⟩ extended sessions ⟨later, stores⟩
      exact .pure sessions ⟨.cons ⟨values.grow extended, rfl, rfl, fun parameter found =>
        basic parameter (parameter?_mem found)⟩ later, stores⟩

/-- There are no lambdas to be analyzed. -/
theorem evaluateLambdas_eq (rise : ∀ argument ∈ arguments, Rises layout argument.value.get)
    (types : Instantiation) (position : Nat) (bindings : Bindings) :
    evaluateLambdas context signature types position arguments bindings = pure bindings := by
  induction arguments generalizing position with
  | nil => rfl
  | cons argument rest ih =>
      obtain ⟨rises, riseRest⟩ := List.forall_mem_cons.mp rise
      have noLambda : argument.value.lambda? = none := rises.noLambda
      unfold evaluateLambdas
      simp only [noLambda]
      exact ih riseRest (position + 1)

/-- If the check of an argument warns where less may be null, it warns where more may be null. -/
theorem Runs.checkArgument {first second : Session} (sessions : Lockstep layout first second)
    {typesOne typesTwo : Instantiation} {table : SlotTable} {one two : Evaluated}
    (evaluated : EvaluatedOrdered layout table one two) : Runs layout anything first second
      (checkArgument context signature typesOne one)
      (checkArgument context signature typesTwo two) := by
  obtain ⟨valueOne, parameter?, span⟩ := one
  obtain ⟨valueTwo, parameterTwo?, spanTwo⟩ := two
  obtain ⟨values, rfl, rfl, basic⟩ := evaluated
  unfold NullFlow.checkArgument
  cases parameter? with
  | none => exact .pure sessions trivial
  | some parameter =>
      have basicParameter : parameter.ty.isBasic = true := basic parameter rfl
      simp only [parameter.ty.substitute_of_closed _ (Ty.isClosed_of_basic basicParameter)]
      exact .checkConversion sessions values basicParameter _

/-- All arguments of a call are checked in lockstep. -/
theorem checkArguments_runs {first second : Session} (sessions : Lockstep layout first second)
    {typesOne typesTwo : Instantiation} {table : SlotTable} {one two : List Evaluated}
    (evaluated : List.Forall₂ (EvaluatedOrdered layout table) one two) :
    Runs layout anything first second
      (one.forM (checkArgument context signature typesOne))
      (two.forM (checkArgument context signature typesTwo)) := by
  induction evaluated generalizing first second with
  | nil => exact .pure sessions trivial
  | cons head _ ih =>
      exact (Runs.checkArgument sessions head).bind fun _ sessions _ => ih sessions

/-- The arguments are checked in both runs or in none. -/
theorem passArguments_runs
    (basic : ∀ parameter ∈ signature.parameters, parameter.ty.isBasic = true)
    (rise : ∀ argument ∈ arguments, Rises layout argument.value.get)
    {typesOne typesTwo : Instantiation} (dynamic : Bool) {first second : Session} {one two : Store}
    (sessions : Lockstep layout first second) (stores : one.Ordered first.slots two) :
    Runs layout (fun table one two => one.2.Ordered table two.2) first second
      (passArguments context signature arguments typesOne dynamic one)
      (passArguments context signature arguments typesTwo dynamic two) := by
  unfold passArguments
  simp only [evaluateLambdas_eq rise, pure_bind]
  refine (evaluateArguments_runs basic rise 0 sessions stores).bind ?_
  rintro first1 second1 ⟨evaluatedOne, _, one⟩ ⟨evaluatedTwo, _, two⟩ _ sessions ⟨all, stores⟩
  refine .ite_bind ?_ fun extended sessions => .pure sessions (stores.grow extended)
  cases dynamic with
  | true => exact .pure sessions trivial
  | false => exact checkArguments_runs sessions all

end Arguments

section Calls

/-- A basic type is not dynamic. -/
theorem no_dynamic (basic : ty?.all Ty.isBasic = true) : ty?.any Ty.isDynamic = false := by
  cases ty? with
  | none => rfl
  | some ty =>
      cases ty with
      | dynamic mark => cases basic
      | _ => rfl

/-- No argument of plain code is dynamic, so every call of it is checked. -/
theorem anyDynamic_eq (rise : ∀ argument ∈ arguments, Rises layout argument.value.get) :
    anyDynamic arguments = false := by
  rw [anyDynamic, List.any_eq_false]
  intro argument member
  rw [Bool.not_eq_true]
  exact no_dynamic (rise argument member).basic

/-- Receivers, on which calls are not resolved at run time, beside the stores. -/
def received (table : SlotTable) (one two : Option Ty × Store) : Prop :=
  (one.1.any Ty.isDynamic = false ∧ two.1.any Ty.isDynamic = false) ∧ one.2.Ordered table two.2

/-- The receiver of a call is evaluated and dereferenced in lockstep. -/
theorem evaluateReceiver_runs {receiver? : Option Part}
    (rise : ∀ receiver ∈ receiver?, Rises layout receiver.get) {first second : Session}
    {one two : Store} (sessions : Lockstep layout first second)
    (stores : one.Ordered first.slots two) :
    Runs layout received first second (evaluateReceiver context receiver? one)
      (evaluateReceiver context receiver? two) := by
  cases receiver? with
  | none => exact .pure sessions ⟨⟨rfl, rfl⟩, stores⟩
  | some receiver =>
      refine ((rise receiver rfl).value sessions stores).bind ?_
      rintro first1 second1 ⟨valueOne, one⟩ ⟨valueTwo, two⟩ _ sessions ⟨values, stores⟩
      refine (Runs.dereference sessions stores values).bind ?_
      intro first2 second2 one two _ sessions stores
      exact .pure sessions ⟨⟨no_dynamic values.basic, no_dynamic values.basicSecond⟩, stores⟩

/-- A call of a method with basic types rises if its receiver and its arguments do. -/
theorem callRule_rises {receiver? : Option Part}
    (callee : ∀ ty ∈ signature.types, ty.isBasic = true)
    (riseReceiver : ∀ receiver ∈ receiver?, Rises layout receiver.get)
    (rise : ∀ argument ∈ arguments, Rises layout argument.value.get) :
    ValueRises layout (callRule context ty? receiver? signature arguments) := by
  intro first second one two sessions stores
  obtain ⟨basicReturn, basicParameters⟩ := List.forall_mem_cons.mp callee
  have parameters : ∀ parameter ∈ signature.parameters, parameter.ty.isBasic = true :=
    fun parameter member => basicParameters _ (List.mem_map_of_mem member)
  refine (evaluateReceiver_runs riseReceiver sessions stores).bind ?_
  rintro first1 second1 ⟨typeOne?, one⟩ ⟨typeTwo?, two⟩ _ sessions ⟨⟨static, staticTwo⟩, stores⟩
  change typeOne?.any Ty.isDynamic = false at static
  change typeTwo?.any Ty.isDynamic = false at staticTwo
  simp only [Comparison.callResult_of_closed (Ty.isClosed_of_basic basicReturn), static, staticTwo,
    anyDynamic_eq rise, Bool.or_self]
  refine (passArguments_runs parameters rise false sessions stores).bind ?_
  rintro first2 second2 ⟨_, one⟩ ⟨_, two⟩ _ sessions stores
  exact .pure sessions ⟨.loose (FlowState.le_refl _) basicReturn rfl, stores⟩

end Calls

section Creations

/-- The member is covered by the layout, and its type has no inner positions. -/
def Plain (layout : Layout) (member : Member) : Prop :=
  layout.coversMember member = true ∧ member.ty.isBasic = true

/-- Seeds on the same paths beside the stores. -/
def seeded (layout : Layout) (table : SlotTable) (one two : List Seed × Store) : Prop :=
  (List.Forall₂ (Seed.Alike .upper) one.1 two.1 ∧ ∀ seed ∈ one.1, seed.Fits layout) ∧
    one.2.Ordered table two.2

/-- Initializers that rise plant the same members in ordered states. -/
theorem seedMembers_runs : ∀ (initializers : List (Initializer Part)) (owner? : Option Ty)
    (path : List (String × FlowState)),
    (∀ step ∈ path, layout.memberState step.1 = step.2) →
    (∀ member ∈ initializerMembers initializers, Plain layout member) →
    (∀ part ∈ initializerValues initializers, Rises layout part.get) →
    ∀ {first second : Session} {one two : Store}, Lockstep layout first second →
    one.Ordered first.slots two →
    Runs layout (seeded layout) first second (seedMembers context owner? path initializers one)
      (seedMembers context owner? path initializers two)
  | [], owner?, path, _, _, _, first, second, one, two, sessions, stores => by
      unfold seedMembers
      exact .pure sessions ⟨⟨.nil, by simp⟩, stores⟩
  | .value member part :: rest, owner?, path, fits, plain, rise, first, second, one, two,
      sessions, stores => by
      obtain ⟨plainMember, plainRest⟩ := List.forall_mem_cons.mp plain
      obtain ⟨risesPart, riseRest⟩ := List.forall_mem_cons.mp rise
      obtain ⟨_, closed, _⟩ := Layout.state_of_member plainMember.1
      unfold seedMembers
      simp only [context.memberType?_of_closed _ closed, Option.map_some, Option.getD_some]
      refine (risesPart.value sessions stores).bind ?_
      rintro first1 second1 ⟨valueOne, one⟩ ⟨valueTwo, two⟩ _ sessions ⟨values, stores⟩
      refine (Runs.checkConversion sessions values plainMember.2 .assignment).bind ?_
      intro first2 second2 _ _ extended sessions _
      refine (seedMembers_runs rest owner? path fits plainRest riseRest sessions
        (stores.grow extended)).bind ?_
      rintro first3 second3 ⟨seedsOne, one⟩ ⟨seedsTwo, two⟩ _ sessions ⟨⟨alike, known⟩, stores⟩
      exact .pure sessions ⟨⟨.cons ⟨rfl, values.state⟩ alike,
        List.forall_mem_cons.mpr ⟨Layout.follows_snoc fits plainMember.1, known⟩⟩, stores⟩
  | .nested member entries :: rest, owner?, path, fits, plain, rise, first, second, one, two,
      sessions, stores => by
      obtain ⟨plainEntry, plainRest⟩ := List.forall_mem_append.mp plain
      obtain ⟨plainMember, plainEntries⟩ := List.forall_mem_cons.mp plainEntry
      obtain ⟨riseEntries, riseRest⟩ := List.forall_mem_append.mp rise
      obtain ⟨_, closed, _⟩ := Layout.state_of_member plainMember.1
      unfold seedMembers
      simp only [context.memberType?_of_closed _ closed, Option.map_some, Option.getD_some]
      refine (seedMembers_runs entries (some member.ty) _ (Layout.follows_snoc fits plainMember.1)
        plainEntries riseEntries sessions stores).bind ?_
      rintro first1 second1 ⟨innerOne, one⟩ ⟨innerTwo, two⟩ _ sessions ⟨⟨inner, innerFit⟩, stores⟩
      refine (seedMembers_runs rest owner? path fits plainRest riseRest sessions stores).bind ?_
      rintro first2 second2 ⟨restOne, one⟩ ⟨restTwo, two⟩ _ sessions ⟨⟨later, laterFit⟩, stores⟩
      exact .pure sessions ⟨⟨List.rel_append inner later,
        List.forall_mem_append.mpr ⟨innerFit, laterFit⟩⟩, stores⟩

/-- A constructor with basic parameter types takes its arguments in lockstep. -/
theorem construct_runs {constructor? : Option Signature}
    (callee : ∀ signature ∈ constructor?, ∀ ty ∈ signature.types, ty.isBasic = true)
    (rise : ∀ argument ∈ arguments, Rises layout argument.value.get) {first second : Session}
    {one two : Store} (sessions : Lockstep layout first second)
    (stores : one.Ordered first.slots two) :
    Runs layout Store.Ordered first second (construct context ty? constructor? arguments one)
      (construct context ty? constructor? arguments two) := by
  cases constructor? with
  | some signature =>
      have parameters : ∀ parameter ∈ signature.parameters, parameter.ty.isBasic = true :=
        fun parameter member => callee signature rfl _
          (List.mem_cons_of_mem _ (List.mem_map_of_mem member))
      refine (passArguments_runs parameters rise _ sessions stores).bind ?_
      rintro first' second' ⟨_, one⟩ ⟨_, two⟩ _ sessions stores
      exact .pure sessions stores
  | none =>
      unfold construct
      induction arguments generalizing first second one two with
      | nil => exact .pure sessions stores
      | cons argument rest ih =>
          obtain ⟨rises, riseRest⟩ := List.forall_mem_cons.mp rise
          simp only [List.foldlM_cons]
          exact ((rises.value sessions stores).map Prod.snd And.right).bind
            fun _ sessions stores => ih riseRest sessions stores

/-- A creation of plain members rises if its arguments and its initializers do. -/
theorem createRule_rises {constructor? : Option Signature}
    {initializers : List (Initializer Part)} (basic : ty?.all Ty.isBasic = true)
    (callee : ∀ signature ∈ constructor?, ∀ ty ∈ signature.types, ty.isBasic = true)
    (rise : ∀ argument ∈ arguments, Rises layout argument.value.get)
    (plain : ∀ member ∈ initializerMembers initializers, Plain layout member)
    (riseEntries : ∀ part ∈ initializerValues initializers, Rises layout part.get) :
    ValueRises layout (createRule context ty? constructor? arguments initializers) := by
  intro first second one two sessions stores
  refine (construct_runs callee rise sessions stores).bind ?_
  intro first1 second1 one two _ sessions stores
  refine (seedMembers_runs initializers ty? [] (by simp) plain riseEntries sessions stores).bind ?_
  rintro first2 second2 ⟨seedsOne, one⟩ ⟨seedsTwo, two⟩ _ sessions ⟨⟨alike, fits⟩, stores⟩
  exact .pure sessions ⟨⟨⟨rfl, FlowState.le_refl _, rfl, alike⟩, by simp,
    (Ty.all_isBasic_map_withState ty? _).trans basic, fits⟩, stores⟩

end Creations

end NullFlow.Lockstep
