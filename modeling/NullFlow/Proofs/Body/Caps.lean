import NullFlow.Proofs.Analysis.Absorption
import NullFlow.Proofs.Body.Methods
import NullFlow.Proofs.Body.Solutions
/-!
What becomes of a valid body when the solver has to stop early. The slots that changed in the last
pass may be null from then on. That is enough if the widened entries absorb what their blocks send.
It is not enough in general, because a null that has yet to travel from one variable to the next
shows in no entry.
-/

namespace NullFlow

namespace SlotTable

/-- A table extends another one if the keys and states of all its slots are the same. -/
theorem extends_of_same {before after : SlotTable}
    (keys : ∀ slot < before.size, after.key? slot = before.key? slot)
    (states : ∀ slot < before.size, after.declared slot = before.declared slot) :
    before.Extends after := by
  intro slot info found
  have inside : slot < before.size := (Array.getElem?_eq_some_iff.mp found).1
  have sameKey : after.key? slot = some info.key := by
    rw [keys slot inside]
    exact key?_eq_some.mpr ⟨info, found, rfl⟩
  obtain ⟨other, atSlot, isKey⟩ := key?_eq_some.mp sameKey
  have sameState := states slot inside
  simp only [declared, found, atSlot] at sameState
  obtain ⟨key, state⟩ := info
  obtain ⟨otherKey, otherState⟩ := other
  simp only at isKey sameState
  rw [atSlot, isKey, sameState]

end SlotTable

namespace Body

section Locals

variable (body : Body)

/-- The declared state of a local. Nothing is known of a number without a local. -/
def declaredState (id : LocalId) : FlowState :=
  match body.localVar? id with
  | some source => source.ty.declaredState
  | none => .maybeNull

/-- The layout of the locals of a body, for given states of members. -/
def layout (memberState : String → FlowState) : Layout := ⟨body.declaredState, memberState⟩

/-- The state that a store shows of a local. A local without a slot is as declared. -/
def shows (table : SlotTable) (store : Store) (id : LocalId) : FlowState :=
  match table.get? (.localVar id) with
  | some slot => store.lookup table (some slot)
  | none => body.declaredState id

variable {body}

/-- What a store shows of a local is what reading the local finds. -/
theorem read_shows {id : LocalId} {source : Variable} (isLocal : body.localVar? id = some source)
    {store : Store} {session : Session} (within : store.Within session.slots) :
    (readRule source store session).1.1.state = body.shows session.slots store id := by
  have sameId : source.id = id := by
    obtain ⟨info, _, rfl⟩ := Option.map_eq_some_iff.mp isLocal
    rfl
  have sameState : body.declaredState id = source.ty.declaredState := by
    rw [declaredState, isLocal]
  change store.lookup (SlotTable.intern (.localVar source.id) source.ty.declaredState
      session.slots).2 (some (SlotTable.intern (.localVar source.id) source.ty.declaredState
      session.slots).1) = _
  rw [shows, sameId, SlotTable.intern]
  cases session.slots.get? (.localVar id) with
  | some slot => rfl
  | none =>
      rw [within.lookup_outside (Nat.le_refl _)]
      simp [SlotTable.declared, SlotTable.size, sameState]

/-- A bound of a store shows null wherever the store does. The bounding store may know fewer
slots. -/
theorem shows_below {memberState : String → FlowState} {early late : SlotTable}
    (fitsEarly : (body.layout memberState).Fits early)
    (fitsLate : (body.layout memberState).Fits late) (extended : early.Extends late)
    {first second : Store} (below : Store.Below late first second) (within : second.Within early)
    (reachable : first.isReachable = true) {id : LocalId}
    (null : body.shows late first id = .maybeNull) : body.shows early second id = .maybeNull := by
  cases isLate : late.get? (.localVar id) with
  | none =>
      have notEarly : early.get? (.localVar id) = none := by
        cases isEarly : early.get? (.localVar id) with
        | none => rfl
        | some slot =>
            have found := extended.key? ((SlotTable.get?_eq_some fitsEarly).mp isEarly)
            rw [(SlotTable.get?_eq_some fitsLate).mpr found] at isLate
            cases isLate
      rw [shows, isLate] at null
      rw [shows, notEarly]
      exact null
  | some slot =>
      have found := (SlotTable.get?_eq_some fitsLate).mp isLate
      rw [shows, isLate] at null
      have admits := (below.admits slot ⟨reachable, null⟩).2
      by_cases inside : slot < early.size
      · have foundEarly : early.key? slot = some (.localVar id) := by
          rw [← extended.key?_eq inside]
          exact found
        rw [shows, (SlotTable.get?_eq_some fitsEarly).mpr foundEarly]
        rw [Store.lookup_extends extended inside] at admits
        exact admits
      · have notEarly : early.get? (.localVar id) = none := by
          cases isEarly : early.get? (.localVar id) with
          | none => rfl
          | some other =>
              have foundEarly := (SlotTable.get?_eq_some fitsEarly).mp isEarly
              have isLateToo := (SlotTable.get?_eq_some fitsLate).mpr (extended.key? foundEarly)
              rw [isLate] at isLateToo
              obtain rfl : slot = other := Option.some.inj isLateToo
              exact absurd (SlotTable.lt_size_of_key? foundEarly) inside
        rw [within.lookup_outside (Nat.le_of_not_lt inside)] at admits
        have declared := SlotTable.declared_of_fits fitsLate found
        rw [admits] at declared
        rw [shows, notEarly]
        exact Option.some.inj declared

end Locals

end Body

namespace Method

section Solve

variable (method : Method) (classes : ClassTable) (options : Options) (token : CancellationToken)

/-- What the solver finds for the body of a method, and the session that it ends in. -/
def solve : Option Solution × Session :=
  (method.graph classes options token).solve
    (method.context classes options token) Store.entry
    (Comparison.muted (method.session options))

/-- The analysis of the method answers with what the solver finds. -/
theorem run_solution :
    (method.run classes options token).1 = (method.solve classes options token).1 := by
  unfold run solve
  rw [Comparison.analyze_eq]
  cases (method.graph classes options token).solve
      (method.context classes options token) Store.entry
      (Comparison.muted (method.session options)) with
  | mk solution? after => cases solution? <;> rfl

end Solve

variable {method : Method} {layout : Layout}

/-- The analysis of flat code converges below all entries that absorb what the blocks send from
them. -/
theorem solve_bounded (flat : method.isFlat layout true = true) (classes : ClassTable)
    (options : Options) (token : CancellationToken) {solution : Solution} {final : Session}
    (solved : method.solve classes options token = (some solution, final))
    (converged : solution.converged = true) {entries : BlockId → Store}
    (within : ∀ id, (entries id).Within final.slots)
    (absorbed : (method.graph classes options token).AbsorbedBy
      (method.context classes options token) Store.entry final entries) (id : BlockId) :
    Store.Below final.slots (solution.entry id) (entries id) := by
  have tracking : (Comparison.ofLayout layout .upper token.stops).Tracking
      (method.graph classes options token) :=
    graph_tracking flat classes options token fun _ => rfl
  have fits : layout.Fits (Comparison.muted (method.session options)).slots :=
    Comparison.fits_empty layout
  exact Comparison.solve_bounded rfl tracking Store.within_entry within absorbed fits solved
    converged id

/-- The slots of a flat method keep to the layout, and the entries know no other slots. -/
theorem solve_fits (flat : method.isFlat layout true = true) (classes : ClassTable)
    (options : Options) (token : CancellationToken) {solution : Solution} {final : Session}
    (solved : method.solve classes options token = (some solution, final)) :
    layout.Fits final.slots ∧ ∀ id, (solution.entry id).Within final.slots := by
  have tracking : (Comparison.ofLayout layout .upper token.stops).Tracking
      (method.graph classes options token) :=
    graph_tracking flat classes options token fun _ => rfl
  have fits : layout.Fits (Comparison.muted (method.session options)).slots :=
    Comparison.fits_empty layout
  have alone := Comparison.solve_alone (method.context classes options token) tracking
    Store.within_entry fits
  obtain ⟨grows, known⟩ := alone
  rw [solve] at solved
  rw [solved] at grows known
  exact ⟨grows.fits, known solution rfl⟩

end Method

namespace Body

/-- The solver may stop early on a valid body with flat code, with slots that have the same numbers
as when it converges. If its entries then absorb what the blocks send from them, they show null for
every local that a converged solution shows null for. -/
theorem flat_cap_sound (body : Body) (valid : body.validate = .ok ()) :
    ∃ method, body.method? = some method ∧
      ∀ memberState, method.isFlat (body.layout memberState) true = true →
        ∀ classes few many token capped early solution late,
          method.solve classes few token = (some capped, early) →
          method.solve classes many token = (some solution, late) →
          solution.converged = true →
          early.slots.Extends late.slots →
          (method.graph classes many token).AbsorbedBy
            (method.context classes many token) Store.entry late capped.entry →
          ∀ block, (solution.entry block).isReachable = true →
            ∀ id, body.shows late.slots (solution.entry block) id = .maybeNull →
              body.shows early.slots (capped.entry block) id = .maybeNull := by
  obtain ⟨method, found⟩ := method?_exists valid
  refine ⟨method, found, ?_⟩
  intro memberState flat classes few many token capped early solution late solvedEarly
    solvedLate converged extended absorbed block reachable id null
  obtain ⟨fitsEarly, withinEarly⟩ := method.solve_fits flat classes few token solvedEarly
  obtain ⟨fitsLate, _⟩ := method.solve_fits flat classes many token solvedLate
  have below := method.solve_bounded flat classes many token solvedLate converged
    (fun other => (withinEarly other).extend extended) absorbed block
  exact shows_below fitsEarly fitsLate extended below (withinEarly block) reachable null

theorem answer_eq {solution : Solution} {answer : Option Solution × Session}
    (isSolution : answer.1 = some solution) : answer = (some solution, answer.2) :=
  Prod.ext isSolution rfl

/-- A loop in which null moves from one variable to the next. Each round calls a method of the first
variable, moves the second one to the first, and resets the second one. -/
def shiftLoop : Body where
  name := "M"
  span? := none
  thisType? := none
  parameters := [0, 1]
  returnType := .void
  locals := #[⟨"x", .named "C" [] .plain, false⟩, ⟨"y", .named "C" [] .plain, false⟩]
  exprs := #[⟨.read 0, some (.named "C" [] .plain), .none⟩,
    ⟨.read 1, some (.named "C" [] .plain), .none⟩,
    ⟨.call (some 0) ⟨"Foo", "C.Foo()", some "C", [], [], .void⟩ [], some .void, .none⟩,
    ⟨.assign 0 1, some (.named "C" [] .plain), .none⟩,
    ⟨.literal .null, some (.null .plain), .none⟩,
    ⟨.assign 1 4, some (.named "C" [] .plain), .none⟩,
    ⟨.bad [], some (.value "bool" .plain), .none⟩]
  stmts := #[⟨.evaluate 2, .none⟩, ⟨.evaluate 3, .none⟩, ⟨.evaluate 5, .none⟩,
    ⟨.block [0, 1, 2], .none⟩, ⟨.whileLoop 6 3, .none⟩, ⟨.block [4], .none⟩]
  root := 5

/-- After three passes over the loop, null has come to both variables. -/
theorem shiftLoop_third_pass_sound :
    shiftLoop.validate = .ok () ∧ ∃ method, shiftLoop.method? = some method ∧
      ∃ capped early solution late,
        method.solve boxClasses ⟨3, false⟩ false = (some capped, early) ∧
        capped.converged = false ∧
        method.solve boxClasses ⟨9, false⟩ false = (some solution, late) ∧
        solution.converged = true ∧
        ∀ block, (solution.entry block).isReachable = true →
          ∀ id, shiftLoop.shows late.slots (solution.entry block) id = .maybeNull →
            shiftLoop.shows early.slots (capped.entry block) id = .maybeNull := by
  have valid : shiftLoop.validate = .ok () := by decide +kernel
  obtain ⟨method, found, sound⟩ := flat_cap_sound shiftLoop valid
  have checked : (shiftLoop.method?.all fun method =>
      method.isFlat (shiftLoop.layout fun _ => .notNull) true &&
      (method.solve boxClasses ⟨3, false⟩ false).1.any fun capped =>
        (method.solve boxClasses ⟨9, false⟩ false).1.any fun solution =>
          let early := (method.solve boxClasses ⟨3, false⟩ false).2
          let late := (method.solve boxClasses ⟨9, false⟩ false).2
          !capped.converged && solution.converged &&
          decide (∀ slot < early.slots.size, late.slots.key? slot = early.slots.key? slot) &&
          decide (∀ slot < early.slots.size,
            late.slots.declared slot = early.slots.declared slot) &&
          decide (∀ id < (method.graph boxClasses ⟨9, false⟩ false).blocks.size,
            Store.equivalent late.slots (Store.joinAll late.slots (capped.entry id ::
              arrivals ((method.graph boxClasses ⟨9, false⟩ false).resent
                (method.context boxClasses ⟨9, false⟩ false) capped.entry late) Store.entry
                (List.range (method.graph boxClasses ⟨9, false⟩ false).blocks.size) id))
              (capped.entry id) = true)) = true := by
    decide +kernel
  rw [found, Option.all_some, Bool.and_eq_true] at checked
  obtain ⟨flat, checked⟩ := checked
  obtain ⟨capped, isCapped, checked⟩ := (Option.any_eq_true _ _).mp checked
  obtain ⟨solution, isSolution, checked⟩ := (Option.any_eq_true _ _).mp checked
  simp only [Bool.and_eq_true, decide_eq_true_eq, Bool.not_eq_true'] at checked
  obtain ⟨⟨⟨⟨unfinished, converged⟩, keys⟩, states⟩, absorbed⟩ := checked
  have solvedEarly := answer_eq isCapped
  have solvedLate := answer_eq isSolution
  exact ⟨valid, method, found, capped, _, solution, _, solvedEarly, unfinished, solvedLate,
    converged, sound _ flat _ _ _ _ capped _ solution _ solvedEarly solvedLate converged
      (SlotTable.extends_of_same keys states) absorbed⟩

/-- After two passes over the loop, null is in the second variable and the first one looks safe. It
changes only in the third pass, so it is not widened. -/
theorem shiftLoop_second_pass_unsound :
    shiftLoop.validate = .ok () ∧ ∃ method, shiftLoop.method? = some method ∧
      ∃ capped early solution late,
        method.solve boxClasses ⟨2, false⟩ false = (some capped, early) ∧
        capped.converged = false ∧
        method.solve boxClasses ⟨9, false⟩ false = (some solution, late) ∧
        solution.converged = true ∧
        ¬∀ block, (solution.entry block).isReachable = true →
          ∀ id, shiftLoop.shows late.slots (solution.entry block) id = .maybeNull →
            shiftLoop.shows early.slots (capped.entry block) id = .maybeNull := by
  have valid : shiftLoop.validate = .ok () := by decide +kernel
  obtain ⟨method, found⟩ := method?_exists valid
  have checked : (shiftLoop.method?.all fun method =>
      (method.solve boxClasses ⟨2, false⟩ false).1.any fun capped =>
        (method.solve boxClasses ⟨9, false⟩ false).1.any fun solution =>
          let early := (method.solve boxClasses ⟨2, false⟩ false).2
          let late := (method.solve boxClasses ⟨9, false⟩ false).2
          !capped.converged && solution.converged && (solution.entry 1).isReachable &&
          decide (shiftLoop.shows late.slots (solution.entry 1) 0 = .maybeNull) &&
          decide (shiftLoop.shows early.slots (capped.entry 1) 0 ≠ .maybeNull)) = true := by
    decide +kernel
  rw [found, Option.all_some] at checked
  obtain ⟨capped, isCapped, checked⟩ := (Option.any_eq_true _ _).mp checked
  obtain ⟨solution, isSolution, checked⟩ := (Option.any_eq_true _ _).mp checked
  simp only [Bool.and_eq_true, decide_eq_true_eq, Bool.not_eq_true'] at checked
  obtain ⟨⟨⟨⟨unfinished, converged⟩, reachable⟩, null⟩, missed⟩ := checked
  refine ⟨valid, method, found, capped, _, solution, _, answer_eq isCapped, unfinished,
    answer_eq isSolution, converged, fun sound => ?_⟩
  exact missed (sound 1 reachable 0 null)

end Body
end NullFlow
