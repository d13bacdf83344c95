import NullFlow.Proofs.Analysis.Reachability
import NullFlow.Proofs.FlowGraph.Edges
import NullFlow.Proofs.FlowGraph.Loops
import NullFlow.Proofs.FlowGraph.Maps
/-!
Where control goes between blocks. The text of a condition may exclude one of its two edges. A run
of a block sends reachable stores along the edges that are left, and along no others.
-/

namespace NullFlow

/-- A graph over the trees of expressions. -/
abbrev CodeGraph := FlowGraph (Simple Expr) Expr

/-- The text of the terminator does not exclude the edge. -/
def Terminator.Opens : Terminator Expr → EdgeKind → Prop
  | .branch condition _ _, .whenTrue => condition.decided? ≠ some false
  | .branch condition _ _, .whenFalse => condition.decided? ≠ some true
  | _, _ => True

namespace FlowGraph

variable (graph : CodeGraph)

/-- The text of the block does not exclude the edge. -/
def Opens (source : BlockId) (kind : EdgeKind) : Prop :=
  ∀ block ∈ graph.blocks[source]?, block.terminator.Opens kind

/-- Control can come to the block along edges that no condition excludes. -/
def IsLive (id : BlockId) : Prop := graph.Arrives graph.Opens id

end FlowGraph

/-- The block with the meanings of its expressions. -/
abbrev Block.meaning (context : Context) (block : Block (Simple Expr) Expr) :
    Block (Simple Meaning) Meaning :=
  block.map (foldSimple (Meaning.ofNode context)) (Expr.meaning context)

/-- What a terminator sends, if control may come to it or not. -/
structure Terminator.Sends (terminator : Terminator Expr) (reached : Prop) (outflow : Outflow) :
    Prop where
  /-- Reachable stores are sent along open edges alone. -/
  only : ∀ {target : BlockId} {store : Store}, (target, store) ∈ outflow → store.Live →
    reached ∧ ∃ kind, (target, kind) ∈ terminator.successors ∧ terminator.Opens kind
  /-- A reachable store is sent along every open edge. -/
  all : reached → ∀ {target : BlockId} {kind : EdgeKind}, (target, kind) ∈ terminator.successors →
    terminator.Opens kind → ∃ store, (target, store) ∈ outflow ∧ store.Live

section Live

variable {context : Context}

/-- Control goes on after a declaration. -/
theorem Variable.declare_live (target : Variable) (value : Expr) (store : Store) :
    Ensures (target.declare context (value.meaning context) store) fun after =>
      after.Live ↔ store.Live := by
  apply ((meaning_decides context value).value_of store).bind
  intro evaluated goesOn
  change Ensures (if !evaluated.2.isReachable then pure evaluated.2 else _) _
  cases live : evaluated.2.isReachable with
  | false => exact .pure goesOn
  | true =>
      have evaluatedLive : evaluated.2.Live := live
      have written : Ensures (do
          let slot ← Analysis.onSlots (SlotTable.intern (.localVar target.id) target.ty.declaredState)
          Analysis.onSlots (evaluated.2.write (some slot) evaluated.1))
          fun after => after.Live ↔ store.Live := by
        apply Ensures.after
        intro slot
        apply Ensures.onSlots
        constructor
        intro table
        have stillLive := (evaluatedLive.write (some slot) evaluated.1).answer table
        exact iff_of_true stillLive (goesOn.mp evaluatedLive)
      simp only [Bool.not_true, Bool.false_eq_true, if_false]
      split
      · apply Ensures.after
        intro _
        exact written
      · exact written

/-- Control goes on after a step. -/
theorem Step.run_live (step : Step (Simple Expr) Expr) (store : Store) :
    Ensures ((step.map (foldSimple (Meaning.ofNode context)) (Expr.meaning context)).run
      context store) fun after => after.Live ↔ store.Live := by
  have evaluated : ∀ expr : Expr, Ensures (Prod.snd <$> (expr.meaning context).value store)
      fun after => after.Live ↔ store.Live := fun expr =>
    ((meaning_decides context expr).value_of store).map fun _ goesOn => goesOn
  match step with
  | .simple (.declare _ none) => exact .pure Iff.rfl
  | .simple (.declare target (some value)) => exact target.declare_live value store
  | .simple (.evaluate expr) => exact evaluated expr
  | .update expr => exact evaluated expr

/-- Every case of a switch that is reached is live. -/
theorem SwitchTarget.live_narrow (value : Value) (hasNullArm : Bool) (store : Store)
    (pattern? : Option Pattern) :
    (SwitchTarget.narrow value hasNullArm store pattern?).Live ↔ store.Live := by
  match pattern? with
  | some .null => simp [narrow, Store.Live]
  | some (.type _) => simp [narrow, Store.Live]
  | none => cases hasNullArm <;> simp [narrow, Store.Live]

section Terminators

variable {reached : Prop}

theorem Terminator.sends_nothing {terminator : Terminator Expr}
    (noEdge : terminator.successors = []) : terminator.Sends reached [] := by
  constructor
  · intro target sent member
    cases member
  · intro _ target kind edge
    rw [noEdge] at edge
    cases edge

theorem Terminator.sends_goto (target : BlockId) (store : Store) :
    (Terminator.goto target : Terminator Expr).Sends store.Live [(target, store)] := by
  constructor
  · intro other sent member live
    obtain ⟨rfl, rfl⟩ := Prod.mk.inj (List.mem_singleton.mp member)
    exact ⟨live, .always, List.mem_cons_self, trivial⟩
  · intro live other kind edge _
    obtain ⟨rfl, rfl⟩ := Prod.mk.inj (List.mem_singleton.mp edge)
    exact ⟨store, List.mem_cons_self, live⟩

/-- A branch sends a store to each side that its condition leaves open. -/
theorem Terminator.sends_branch {condition : Expr} {whenTrue whenFalse : BlockId}
    {toTrue toFalse : Store}
    (ofTrue : toTrue.Live ↔ reached ∧ condition.decided? ≠ some false)
    (ofFalse : toFalse.Live ↔ reached ∧ condition.decided? ≠ some true) :
    (Terminator.branch condition whenTrue whenFalse).Sends reached
      [(whenTrue, toTrue), (whenFalse, toFalse)] := by
  constructor
  · intro other sent member live
    rcases List.mem_cons.mp member with same | member
    · obtain ⟨rfl, rfl⟩ := Prod.mk.inj same
      obtain ⟨reached, isOpen⟩ := ofTrue.mp live
      exact ⟨reached, .whenTrue, List.mem_cons_self, isOpen⟩
    · obtain ⟨rfl, rfl⟩ := Prod.mk.inj (List.mem_singleton.mp member)
      obtain ⟨reached, isOpen⟩ := ofFalse.mp live
      exact ⟨reached, .whenFalse, List.mem_cons_of_mem _ List.mem_cons_self, isOpen⟩
  · intro reached other kind edge isOpen
    rcases List.mem_cons.mp edge with same | edge
    · obtain ⟨rfl, rfl⟩ := Prod.mk.inj same
      exact ⟨toTrue, List.mem_cons_self, ofTrue.mpr ⟨reached, isOpen⟩⟩
    · obtain ⟨rfl, rfl⟩ := Prod.mk.inj (List.mem_singleton.mp edge)
      exact ⟨toFalse, List.mem_cons_of_mem _ List.mem_cons_self, ofFalse.mpr ⟨reached, isOpen⟩⟩

/-- A switch sends a store to every arm. -/
theorem Terminator.sends_switch {scrutinee : Expr} {targets : List SwitchTarget}
    {sent : SwitchTarget → Store} (live : ∀ arm, (sent arm).Live ↔ reached) :
    (Terminator.switch scrutinee targets).Sends reached
      (targets.map fun arm => (arm.target, sent arm)) := by
  constructor
  · intro other store member isLive
    obtain ⟨arm, isArm, same⟩ := List.mem_map.mp member
    obtain ⟨rfl, rfl⟩ := Prod.mk.inj same
    obtain ⟨index, inside, rfl⟩ := List.getElem_of_mem isArm
    refine ⟨(live _).mp isLive, .arm index, ?_, trivial⟩
    apply List.mem_map.mpr
    exact ⟨(targets[index], index),
      List.mem_zipIdx_iff_getElem?.mpr (List.getElem?_eq_getElem inside), rfl⟩
  · intro reached other kind edge _
    obtain ⟨⟨arm, index⟩, inArms, same⟩ := List.mem_map.mp edge
    obtain ⟨rfl, rfl⟩ := Prod.mk.inj same
    have isArm : arm ∈ targets := List.fst_mem_of_mem_zipIdx inArms
    exact ⟨_, List.mem_map_of_mem isArm, (live arm).mpr reached⟩

end Terminators

variable (context) in
/-- The end of a block sends live stores along the edges that constants leave open. -/
theorem Terminator.run_sends (terminator : Terminator Expr) (store : Store) :
    Ensures ((terminator.map (Expr.meaning context)).run context store)
      (terminator.Sends store.Live) := by
  cases terminator with
  | goto target => exact .pure (sends_goto target store)
  | branch condition whenTrue whenFalse =>
      apply ((meaning_decides context condition).branches_of store).bind
      rintro branches ⟨ofTrue, ofFalse⟩
      exact .pure (sends_branch ofTrue ofFalse)
  | switch scrutinee targets =>
      apply ((meaning_decides context scrutinee).value_of store).bind
      rintro ⟨value, after⟩ goesOn
      exact .pure (sends_switch fun arm => (SwitchTarget.live_narrow ..).trans goesOn)
  | returnValue value? span =>
      constructor
      intro session
      rw [Terminator.map, Terminator.run_returnValue]
      exact sends_nothing rfl
  | throwValue value? =>
      cases value? with
      | none => exact .pure (sends_nothing rfl)
      | some value =>
          apply Ensures.after
          intro _
          exact .pure (sends_nothing rfl)
  | exit => exact .pure (sends_nothing rfl)

variable (context) in
/-- A run of a block sends reachable stores along the open edges if it starts with one. -/
theorem Block.transfer_sends (block : Block (Simple Expr) Expr) (store : Store) :
    Ensures ((block.meaning context).transfer context store)
      (block.terminator.Sends store.Live) := by
  have goesOn : Ensures ((block.meaning context).steps.foldlM
      (fun store step => step.run context store) store) fun after => after.Live ↔ store.Live := by
    refine Ensures.foldlM ?_ Iff.rfl
    intro step member before sameLive
    obtain ⟨source, _, rfl⟩ := List.mem_map.mp member
    constructor
    intro session
    exact ((source.run_live before).answer session).trans sameLive
  apply goesOn.bind
  intro after sameLive
  constructor
  intro session
  have sends := (block.terminator.run_sends context after).answer session
  rw [sameLive] at sends
  exact sends

end Live

section Unreachable

variable {context : Context}

/-- An unreached step does nothing. -/
theorem Step.run_unreachable (step : Step (Simple Expr) Expr) (session : Session) :
    (step.map (foldSimple (Meaning.ofNode context)) (Expr.meaning context)).run context
      .unreachable session = (.unreachable, session) := by
  have value : ∀ expr : Expr, (expr.meaning context).value .unreachable session =
      ((.unresolved, .unreachable), session) := fun expr =>
    (meaning_decides context expr).unreached session
  have declared : ∀ (target : Variable) (expr : Expr),
      target.declare context (expr.meaning context) .unreachable session =
        (.unreachable, session) := by
    intro target expr
    simp only [Variable.declare, bind, StateT.bind, value]
    rfl
  have evaluated : ∀ expr : Expr, (Prod.snd <$> (expr.meaning context).value .unreachable) session =
      (.unreachable, session) := by
    intro expr
    simp only [Functor.map, StateT.map, bind, value]
    rfl
  match step with
  | .simple (.declare _ none) => rfl
  | .simple (.declare target (some expr)) => exact declared target expr
  | .simple (.evaluate expr) => exact evaluated expr
  | .update expr => exact evaluated expr

/-- The end of an unreached block does nothing to the session. -/
theorem Terminator.run_unreachable (terminator : Terminator Expr) (session : Session) :
    ((terminator.map (Expr.meaning context)).run context .unreachable session).2 = session := by
  have value : ∀ expr : Expr, (expr.meaning context).value .unreachable session =
      ((.unresolved, .unreachable), session) := fun expr =>
    (meaning_decides context expr).unreached session
  match terminator with
  | .goto _ => rfl
  | .branch condition _ _ =>
      simp only [map, run, bind, StateT.bind, (meaning_decides context condition).undecided]
      rfl
  | .switch scrutinee _ =>
      simp only [map, run, bind, StateT.bind, value]
      rfl
  | .returnValue none _ => rfl
  | .returnValue (some expr) _ =>
      simp only [map, run, Option.map_some, bind, StateT.bind, value]
      rfl
  | .throwValue none => rfl
  | .throwValue (some expr) =>
      simp only [map, run, Option.map_some, bind, StateT.bind, value]
      rfl
  | .exit => rfl

/-- The run of a block that control does not come to leaves no trace. -/
theorem Block.transfer_unreachable (block : Block (Simple Expr) Expr) (session : Session) :
    ((block.meaning context).transfer context .unreachable session).2 = session ∧
      ∀ edge ∈ ((block.meaning context).transfer context .unreachable session).1,
        edge.2 = .unreachable := by
  have idle : ∀ steps : List (Step (Simple Expr) Expr),
      (steps.map (Step.map (foldSimple (Meaning.ofNode context)) (Expr.meaning context))).foldlM
        (fun store step => step.run context store) .unreachable session =
          (Store.unreachable, session) := by
    intro steps
    induction steps with
    | nil => rfl
    | cons step rest ih =>
        rw [List.map_cons, List.foldlM_cons]
        simp only [bind, StateT.bind, step.run_unreachable]
        exact ih
  constructor
  · simp only [Block.transfer, bind, StateT.bind, Block.map, idle]
    exact block.terminator.run_unreachable session
  · intro edge member
    have sends := (block.transfer_sends context .unreachable).answer session
    cases sent : edge.2 with
    | unreachable => rfl
    | reachable facts =>
        have live : edge.2.Live := by rw [sent]; rfl
        exact absurd (sends.only member live).1 not_live_unreachable

end Unreachable

end NullFlow
