import Mathlib.Tactic.IntervalCases
import NullFlow.Proofs.Analysis.LeastSolutions
import NullFlow.Proofs.Body.Flatness
/-!
What the solver finds for a flat body. It is never above a solution of the equations. It is the
least solution if members are assigned through tracked places alone: an assignment through another
place reaches only the members that have slots by then.
-/

namespace NullFlow

/-- A table that grows to one of a layout is one of the layout. -/
theorem SlotTable.Extends.fits {before after : SlotTable} {layout : Layout}
    (extended : before.Extends after) (fits : layout.Fits after) : layout.Fits before where
  declared slot info found := fits.declared slot info (extended slot info found)
  older slot info parent found := fits.older slot info parent (extended slot info found)
  distinct slot other info info' found found' :=
    fits.distinct slot other info info' (extended slot info found) (extended other info' found')

namespace Method

section Passes

variable (method : Method) (classes : ClassTable) (options : Options) (token : CancellationToken)

/-- Passes over the blocks of the method in any order. At least one pass is made. -/
def passes (order : List BlockId) (more : Nat) : Analysis (Option Solution) :=
  Sweep.iterate (method.context classes options token)
    (method.graph classes options token) Store.entry
    (method.graph classes options token).sources order more 0
    (.start (method.graph classes options token).blocks.size)

/-- The solver makes its passes in reverse postorder. -/
theorem solve_eq_passes : method.solve classes options token =
    method.passes classes options token
      (method.graph classes options token).reversePostorder (options.maxIterations - 1)
      (Comparison.muted (method.session options)) := rfl

/-- The order names all blocks that a path leads to. -/
def Covers (order : List BlockId) : Prop :=
  ∀ id : Nat, (method.graph classes options token).Reachable id →
    id < (method.graph classes options token).blocks.size → id ∈ order

/-- The solver visits every block that a store arrives at. -/
theorem reversePostorder_covers : method.Covers classes options token
    (method.graph classes options token).reversePostorder :=
  fun _ reachable inside => FlowGraph.mem_reversePostorder reachable inside

/-- The entries solve the equations of the method. -/
def EquationsHold (session : Session) (entries : BlockId → Store) : Prop :=
  (method.graph classes options token).EquationsHold
    (method.context classes options token) Store.entry session entries

def LeastSolution (session : Session) (entries : BlockId → Store) : Prop :=
  (method.graph classes options token).LeastSolution
    (method.context classes options token) Store.entry session entries

end Passes

section Flat

variable {method : Method} {layout : Layout} {classes : ClassTable} {options : Options}
  {token : CancellationToken} {order : List BlockId} {more : Nat} {session ended later : Session}
  {solution : Solution} (fits : layout.Fits session.slots)
  (solved : method.passes classes options token order more session =
    (some solution, ended))
include fits solved

/-- The entries that the passes find know no slots but those that the passes found. -/
theorem passes_within (flat : method.isFlat layout true = true) :
    layout.Fits ended.slots ∧ session.slots.Extends ended.slots ∧
      ∀ id, (solution.entry id).Within ended.slots := by
  have tracking : (Comparison.ofLayout layout .upper token.stops).Tracking
      (method.graph classes options token) :=
    graph_tracking flat classes options token fun _ => rfl
  have alone : (Comparison.ofLayout layout .upper token.stops).Alone Comparison.solutions session
      (method.passes classes options token order more) :=
    Comparison.iterate_alone tracking Store.within_entry more 0 fits (Comparison.known_start _)
  obtain ⟨grows, known⟩ := alone
  rw [solved] at grows known
  exact ⟨grows.fits, grows.slots, known solution rfl⟩

variable (converged : solution.converged = true)
include converged

/-- Converged entries are below every solution. -/
theorem passes_below (flat : method.isFlat layout true = true)
    (fitsLater : layout.Fits later.slots) (extended : ended.slots.Extends later.slots)
    {entries : BlockId → Store} (within : ∀ id, (entries id).Within later.slots)
    (holds : method.EquationsHold classes options token later entries) (id : BlockId) :
    Store.Below later.slots (solution.entry id) (entries id) := by
  have tracking : (Comparison.ofLayout layout .upper token.stops).Tracking
      (method.graph classes options token) :=
    graph_tracking flat classes options token fun _ => rfl
  exact Comparison.iterate_bounded rfl tracking Store.within_entry fitsLater within holds.absorbed
    more 0 fits (Comparison.known_start _) (Comparison.bounded_start _ _ _) solved extended converged
    id

/-- Converged entries that absorb what the blocks send from them solve the equations. -/
theorem passes_solve_of_absorbed (flat : method.isFlat layout true = true)
    (covers : method.Covers classes options token order)
    (absorbed : (method.graph classes options token).AbsorbedBy
      (method.context classes options token) Store.entry ended solution.entry) :
    method.EquationsHold classes options token ended solution.entry := by
  have tracking : (Comparison.ofLayout layout .upper token.stops).Tracking
      (method.graph classes options token) :=
    graph_tracking flat classes options token fun _ => rfl
  exact Comparison.iterate_solves_of_absorbed tracking rfl Store.within_entry covers fits solved
    converged absorbed

/-- Converged entries solve the equations if members are assigned through tracked places alone. -/
theorem passes_solve (flat : method.isFlat layout false = true)
    (covers : method.Covers classes options token order)
    (fitsLater : layout.Fits later.slots) (extended : ended.slots.Extends later.slots) :
    method.EquationsHold classes options token later solution.entry := by
  have tracking : (Comparison.ofLayout layout .exact token.stops).Tracking
      (method.graph classes options token) :=
    graph_tracking flat classes options token fun lenient => by cases lenient
  exact Comparison.iterate_solves tracking Store.within_entry covers fits solved converged rfl
    fitsLater extended

/-- Passes that find the same slots find the same states, in whatever order they visit the blocks and
whichever of the slots were there before. -/
theorem passes_agree (strict : method.isFlat layout false = true)
    (flat : method.isFlat layout true = true)
    (covers : method.Covers classes options token order) {otherOrder : List BlockId}
    {otherMore : Nat} {otherSession again : Session} {other : Solution}
    (fitsOther : layout.Fits otherSession.slots)
    (solvedOther : method.passes classes options token otherOrder otherMore otherSession =
      (some other, again))
    (convergedOther : other.converged = true)
    (coversOther : method.Covers classes options token otherOrder)
    (extended : ended.slots.Extends again.slots) (id : BlockId) :
    Store.Matches .exact again.slots (solution.entry id) (other.entry id) := by
  obtain ⟨_, _, within⟩ := passes_within fits solved flat
  obtain ⟨fitsAgain, _, withinOther⟩ := passes_within fitsOther solvedOther flat
  have holds := passes_solve fits solved converged strict covers fitsAgain extended
  have holdsOther := passes_solve fitsOther solvedOther convergedOther strict coversOther fitsAgain
    (.refl _)
  refine Store.Below.antisymm ?_ ?_
  · exact passes_below fits solved converged flat fitsAgain extended withinOther holdsOther id
  · exact passes_below fitsOther solvedOther convergedOther flat fitsAgain (.refl _)
      (fun other => (within other).extend extended) holds id

end Flat

end Method

namespace Body

/-- The entries that the solver converges to for a flat body are below every solution of the
equations. They are the least solution if and only if they absorb what the blocks send from them.
They do so if members are assigned through tracked places alone, and then passes over the blocks in
any order come to the same entries, whichever of the slots were there before. -/
theorem flat_solution_least (body : Body) (valid : body.validate = .ok ()) (flat : body.Flat) :
    ∃ method, body.method? = some method ∧
      ∀ classes options token solution final,
        method.solve classes options token = (some solution, final) →
        solution.converged = true →
        (∀ entries, (∀ id, (entries id).Within final.slots) →
          method.EquationsHold classes options token final entries →
          ∀ id, Store.Below final.slots (solution.entry id) (entries id)) ∧
        (method.LeastSolution classes options token final solution.entry ↔
          (method.graph classes options token).AbsorbedBy
            (method.context classes options token) Store.entry final solution.entry) ∧
        (body.WritesTracked →
          method.LeastSolution classes options token final solution.entry ∧
          ∀ order more session other again, method.Covers classes options token order →
            session.slots.Extends final.slots →
            method.passes classes options token order more session = (some other, again) →
            other.converged = true → final.slots.Extends again.slots →
            ∀ id, Store.equivalent again.slots (solution.entry id) (other.entry id) = true) := by
  obtain ⟨method, found⟩ := method?_exists valid
  refine ⟨method, found, ?_⟩
  intro classes options token solution final solved converged
  have lenient : method.isFlat (body.layout body.memberState) true = true :=
    flat.method_isFlat (fun strict => by cases strict) found
  have fitsMuted : (body.layout body.memberState).Fits
      (Comparison.muted (method.session options)).slots := Comparison.fits_empty _
  have covers := method.reversePostorder_covers classes options token
  rw [Method.solve_eq_passes] at solved
  have fitsFinal := (Method.passes_within fitsMuted solved lenient).1
  have least : ∀ entries, (∀ id, (entries id).Within final.slots) →
      method.EquationsHold classes options token final entries →
      ∀ id, Store.Below final.slots (solution.entry id) (entries id) := fun entries within holds =>
    Method.passes_below fitsMuted solved converged lenient fitsFinal (.refl _) within holds
  refine ⟨least, ⟨fun solves => solves.holds.absorbed, fun absorbed => ⟨?_, least⟩⟩, fun writes => ?_⟩
  · exact Method.passes_solve_of_absorbed fitsMuted solved converged lenient covers absorbed
  · have strict : method.isFlat (body.layout body.memberState) false = true :=
      flat.method_isFlat (fun _ => writes) found
    refine ⟨⟨?_, least⟩, ?_⟩
    · exact Method.passes_solve fitsMuted solved converged strict covers fitsFinal (.refl _)
    · intro order more session other again coversOther known solvedOther convergedOther extended id
      exact Store.equivalent_iff_matches.mpr (Method.passes_agree fitsMuted solved converged strict
        lenient covers (known.fits fitsFinal) solvedOther convergedOther coversOther extended id)

section Loops

def plainClass : Ty := .named "C" [] .plain

def nullableClass : Ty := .named "C" [] .nullable

def plainClasses : ClassTable := .ofList [⟨"C", [], none⟩]

def field : Member := ⟨"F", some "C", plainClass⟩

/-- The parameter of a loop. -/
def ownRead : ArenaExpr := ⟨.read 0, some plainClass, .none⟩

/-- A call that yields an object which lies in no place. -/
def freshCall : ArenaExpr :=
  ⟨.call none ⟨"Foo", "Foo()", none, [], [], plainClass⟩ [], some plainClass, .none⟩

def nullValue : ArenaExpr := ⟨.literal .null, some (.null .plain), .none⟩

/-- A loop of which every round either calls a method of the field of the parameter, or assigns a
value to the field of the receiver and goes back to the head of the loop at once. -/
def fieldLoop (receiver value : ArenaExpr) : Body where
  name := "M"
  span? := none
  thisType? := none
  parameters := [0]
  returnType := .void
  locals := #[⟨"y", plainClass, false⟩]
  exprs := #[receiver, ⟨.member (some 0) field, some plainClass, .none⟩, value,
    ⟨.assign 1 2, some plainClass, .none⟩, ownRead,
    ⟨.member (some 4) field, some plainClass, .none⟩,
    ⟨.call (some 5) ⟨"Bar", "C.Bar()", some "C", [], [], .void⟩ [], some .void, .none⟩,
    ⟨.bad [], some (.value "bool" .plain), .none⟩, ⟨.bad [], some (.value "bool" .plain), .none⟩]
  stmts := #[⟨.evaluate 6, .none⟩, ⟨.evaluate 3, .none⟩, ⟨.continueLoop, .none⟩,
    ⟨.block [1, 2], .none⟩, ⟨.ifElse 8 0 (some 3), .none⟩, ⟨.whileLoop 7 4, .none⟩,
    ⟨.block [5], .none⟩]
  root := 6

/-- The loop names one field alone. -/
theorem fieldLoop_members {receiver value : ArenaExpr}
    (members : (fieldLoop receiver value).members = [field, field]) :
    ∀ member ∈ (fieldLoop receiver value).members,
      ∀ other ∈ (fieldLoop receiver value).members, member.name = other.name →
        member.ty = other.ty := by
  have same : ∀ member ∈ (fieldLoop receiver value).members, member = field := by
    rw [members]
    simp
  intro member inBody other inOther _
  rw [same member inBody, same other inOther]

theorem ownLoop_flat : (fieldLoop ownRead nullValue).Flat where
  noLambda := by decide
  noArray := by decide
  types := by decide
  callees := by decide
  members := fieldLoop_members rfl

theorem freshLoop_flat : (fieldLoop freshCall freshCall).Flat where
  noLambda := by decide
  noArray := by decide
  types := by decide
  callees := by decide
  members := fieldLoop_members rfl

/-- The only assignment is to the field of the parameter. -/
theorem ownLoop_writesTracked : (fieldLoop ownRead nullValue).WritesTracked := by
  intro id target value found receiver selected atTarget
  have inside : id < 9 := by
    obtain ⟨expr, atId, _⟩ := Option.map_eq_some_iff.mp found
    exact (Array.getElem?_eq_some_iff.mp atId).1
  have isField : id = 3 := by
    interval_cases id <;> first | rfl | cases found
  subst isField
  cases found
  cases atTarget
  exact .read rfl

/-- The solver finds the least solution for the loop that assigns null to the field of its parameter.
Passes that visit the blocks the other way round come to the same entries. -/
theorem ownLoop_solution_least :
    (fieldLoop ownRead nullValue).validate = .ok () ∧ (fieldLoop ownRead nullValue).Flat ∧
      (fieldLoop ownRead nullValue).WritesTracked ∧ ∃ method,
        (fieldLoop ownRead nullValue).method? = some method ∧ ∃ solution final,
          method.solve plainClasses ⟨9, false⟩ false = (some solution, final) ∧
          solution.converged = true ∧
          method.LeastSolution plainClasses ⟨9, false⟩ false final solution.entry ∧
          ∃ other again, method.passes plainClasses ⟨9, false⟩ false [7, 6, 5, 4, 3, 2, 1, 0] 9
              { Comparison.muted (method.session ⟨9, false⟩) with slots := final.slots } =
                (some other, again) ∧
            other.converged = true ∧
            ∀ id, Store.equivalent again.slots (solution.entry id) (other.entry id) = true := by
  have valid : (fieldLoop ownRead nullValue).validate = .ok () := by decide +kernel
  obtain ⟨method, found, solves⟩ := flat_solution_least _ valid ownLoop_flat
  have checked : ((fieldLoop ownRead nullValue).method?.all fun method =>
      let answer := method.solve plainClasses ⟨9, false⟩ false
      let backwards := method.passes plainClasses ⟨9, false⟩ false [7, 6, 5, 4, 3, 2, 1, 0] 9
        { Comparison.muted (method.session ⟨9, false⟩) with slots := answer.2.slots }
      decide ((method.graph plainClasses ⟨9, false⟩ false).blocks.size = 8) &&
      decide (∀ slot < answer.2.slots.size,
        backwards.2.slots.key? slot = answer.2.slots.key? slot) &&
      decide (∀ slot < answer.2.slots.size,
        backwards.2.slots.declared slot = answer.2.slots.declared slot) &&
      answer.1.any Solution.converged && backwards.1.any Solution.converged) = true := by
    decide +kernel
  have answers := (Option.all_eq_true _ _).mp checked method found
  simp only [Bool.and_eq_true, decide_eq_true_eq] at answers
  have covers : method.Covers plainClasses ⟨9, false⟩ false [7, 6, 5, 4, 3, 2, 1, 0] := by
    intro id _ inside
    rw [answers.1.1.1.1] at inside
    interval_cases id <;> simp
  generalize solved : method.solve plainClasses ⟨9, false⟩ false = answer at answers
  obtain ⟨solution?, final⟩ := answer
  generalize passed : method.passes plainClasses ⟨9, false⟩ false [7, 6, 5, 4, 3, 2, 1, 0] 9
    { Comparison.muted (method.session ⟨9, false⟩) with slots := final.slots } = backwards at answers
  obtain ⟨other?, again⟩ := backwards
  obtain ⟨⟨⟨⟨_, keys⟩, states⟩, answered⟩, answeredBackwards⟩ := answers
  obtain ⟨solution, rfl, converged⟩ := (Option.any_eq_true _ _).mp answered
  obtain ⟨other, rfl, convergedOther⟩ := (Option.any_eq_true _ _).mp answeredBackwards
  obtain ⟨_, _, strict⟩ := solves plainClasses ⟨9, false⟩ false solution final solved converged
  obtain ⟨least, agrees⟩ := strict ownLoop_writesTracked
  have known : { Comparison.muted (method.session ⟨9, false⟩) with slots := final.slots }.slots.Extends
      final.slots := .refl _
  have same := agrees _ _ _ other again covers known passed convergedOther
    (SlotTable.extends_of_same keys states)
  exact ⟨valid, ownLoop_flat, ownLoop_writesTracked, method, found, solution, final, solved,
    converged, least, other, again, passed, convergedOther, same⟩

/-- The solver converges on the loop that assigns the field of an object which lies in no place. But
the round after the last one would bring null to the head of the loop: in the first pass the field of
the parameter got its slot only after the assignment was visited. -/
theorem freshLoop_solution_fails :
    (fieldLoop freshCall freshCall).validate = .ok () ∧ (fieldLoop freshCall freshCall).Flat ∧
      ∃ method, (fieldLoop freshCall freshCall).method? = some method ∧ ∃ solution final,
        method.solve plainClasses ⟨40, false⟩ false = (some solution, final) ∧
        solution.converged = true ∧
        ¬method.LeastSolution plainClasses ⟨40, false⟩ false final solution.entry := by
  have valid : (fieldLoop freshCall freshCall).validate = .ok () := by decide +kernel
  obtain ⟨method, found⟩ := method?_exists valid
  have checked : ((fieldLoop freshCall freshCall).method?.all fun method =>
      let answer := method.solve plainClasses ⟨40, false⟩ false
      answer.1.any fun solution => solution.converged &&
        decide (1 < (method.graph plainClasses ⟨40, false⟩ false).blocks.size) &&
        !Store.equivalent answer.2.slots (solution.entry 1) (Store.joinAll answer.2.slots
          (arrivals ((method.graph plainClasses ⟨40, false⟩ false).resent
              (method.context plainClasses ⟨40, false⟩ false) solution.entry answer.2) Store.entry
            (List.range (method.graph plainClasses ⟨40, false⟩ false).blocks.size) 1))) = true := by
    decide +kernel
  rw [found, Option.all_some] at checked
  obtain ⟨solution, isSolution, checked⟩ := (Option.any_eq_true _ _).mp checked
  simp only [Bool.and_eq_true, decide_eq_true_eq, Bool.not_eq_true'] at checked
  obtain ⟨⟨converged, inside⟩, differs⟩ := checked
  refine ⟨valid, freshLoop_flat, method, found, solution, _, answer_eq isSolution, converged,
    fun solves => ?_⟩
  rw [solves.holds 1 inside] at differs
  cases differs

end Loops

end Body
end NullFlow
