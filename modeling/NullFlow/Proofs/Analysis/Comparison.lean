import Mathlib.Data.List.Forall2
import NullFlow.Analysis.Meaning
import NullFlow.Proofs.Store.Relation
import NullFlow.Proofs.Types.Flat
/-!
Comparisons of two runs of the same code. The runs begin in different sessions with different
stores. Whatever they do, their slot tables grow and keep to the layout. If the second run begins
with all slots that the first run ends with, then also their results compare.
-/

namespace NullFlow

/-- What two runs are compared by. -/
structure Comparison where
  layout : Layout
  bound : Bound
  /-- The slots that the second run has from the beginning. -/
  target : SlotTable
  /-- The caller wants both runs to stop. -/
  stopRequested : Bool

/-- What is known of a result alone, and how two results compare. -/
structure View (Result : Type) where
  fits : SlotTable → Result → Prop
  alike : Result → Result → Prop
  grow : ∀ {before after : SlotTable} {result : Result}, before.Extends after →
    fits before result → fits after result

namespace View

variable {Result Other : Type}

/-- Nothing is known of the results. -/
def any : View Result where
  fits _ _ := True
  alike _ _ := True
  grow _ _ := trivial

def both (first : View Result) (second : View Other) : View (Result × Other) where
  fits table pair := first.fits table pair.1 ∧ second.fits table pair.2
  alike one two := first.alike one.1 two.1 ∧ second.alike one.2 two.2
  grow extended fits := ⟨first.grow extended fits.1, second.grow extended fits.2⟩

end View

namespace Comparison

/-- The comparison for code with the places of a layout, if nothing is known of the second run. -/
def ofLayout (layout : Layout) (bound : Bound) (stopRequested : Bool) : Comparison :=
  ⟨layout, bound, .empty, stopRequested⟩

variable {Result Other : Type} {view : View Result} {other : View Other}

section Runs

/-- What every run keeps. -/
structure Grows (pair : Comparison) (before after : Session) : Prop where
  slots : before.slots.Extends after.slots
  fits : pair.layout.Fits after.slots
  cancelled : (before.cancelled || pair.stopRequested) = false → after.cancelled = false

theorem Grows.refl {pair : Comparison} {session : Session} (fits : pair.layout.Fits session.slots) :
    pair.Grows session session := by
  refine ⟨.refl _, fits, fun running => ?_⟩
  exact (Bool.or_eq_false_iff.mp running).1

/-- To check the token keeps everything. -/
theorem Grows.checked {pair : Comparison} {session : Session}
    (fits : pair.layout.Fits session.slots) : pair.Grows session session.checked :=
  ⟨.refl _, fits, (Grows.refl fits).cancelled⟩

/-- Sessions that grow in two steps grow. -/
theorem Grows.trans {pair : Comparison} {first second third : Session}
    (early : pair.Grows first second) (late : pair.Grows second third) :
    pair.Grows first third := by
  refine ⟨early.slots.trans late.slots, late.fits, fun running => late.cancelled ?_⟩
  rw [early.cancelled running, (Bool.or_eq_false_iff.mp running).2]
  rfl

/-- What a run does whatever it is compared with. -/
structure Alone (pair : Comparison) (view : View Result) (session : Session)
    (action : Analysis Result) : Prop where
  grows : pair.Grows session (action session).2
  fits : view.fits (action session).2.slots (action session).1

/-- Two values at the same point of two runs. -/
structure Related (pair : Comparison) (view : View Result) (first second : Session)
    (one two : Result) : Prop where
  layoutFirst : pair.layout.Fits first.slots
  layoutSecond : pair.layout.Fits second.slots
  reached : pair.target.Extends second.slots
  fitsFirst : view.fits first.slots one
  fitsSecond : view.fits second.slots two
  alike : first.slots.Extends pair.target → view.alike one two

/-- Two runs and their results. -/
structure Runs (pair : Comparison) (view : View Result) (first second : Session)
    (one two : Analysis Result) : Prop where
  aloneFirst : pair.Alone view first one
  aloneSecond : pair.Alone view second two
  alike : (one first).2.slots.Extends pair.target → view.alike (one first).1 (two second).1

end Runs

variable {pair : Comparison} {first second first' second' : Session}

section Structure

variable {one two : Result}

/-- Related values stay related when the runs go on. -/
theorem Related.grow (related : pair.Related view first second one two)
    (growsFirst : pair.Grows first first') (growsSecond : pair.Grows second second') :
    pair.Related view first' second' one two where
  layoutFirst := growsFirst.fits
  layoutSecond := growsSecond.fits
  reached := related.reached.trans growsSecond.slots
  fitsFirst := view.grow growsFirst.slots related.fitsFirst
  fitsSecond := view.grow growsSecond.slots related.fitsSecond
  alike known := related.alike (growsFirst.slots.trans known)

/-- Other values at the same point of the runs. -/
theorem Related.with {three four : Other} (related : pair.Related view first second one two)
    (fitsFirst : other.fits first.slots three) (fitsSecond : other.fits second.slots four)
    (alike : first.slots.Extends pair.target → other.alike three four) :
    pair.Related other first second three four :=
  ⟨related.layoutFirst, related.layoutSecond, related.reached, fitsFirst, fitsSecond, alike⟩

theorem Related.any {three four : Other} (related : pair.Related view first second one two) :
    pair.Related .any first second three four := related.with trivial trivial fun _ => trivial

/-- Pairs are related if their parts are. -/
theorem Related.both {three four : Other} (left : pair.Related view first second one two)
    (right : pair.Related other first second three four) :
    pair.Related (view.both other) first second (one, three) (two, four) :=
  left.with ⟨left.fitsFirst, right.fitsFirst⟩ ⟨left.fitsSecond, right.fitsSecond⟩ fun known =>
    ⟨left.alike known, right.alike known⟩

theorem Related.left {three four : Other}
    (related : pair.Related (view.both other) first second (one, three) (two, four)) :
    pair.Related view first second one two :=
  related.with related.fitsFirst.1 related.fitsSecond.1 fun known => (related.alike known).1

theorem Related.right {three four : Other}
    (related : pair.Related (view.both other) first second (one, three) (two, four)) :
    pair.Related other first second three four :=
  related.with related.fitsFirst.2 related.fitsSecond.2 fun known => (related.alike known).2

/-- The two sessions and their results after two runs. -/
theorem Runs.related {actionOne actionTwo : Analysis Result}
    (runs : pair.Runs view first second actionOne actionTwo)
    (reached : pair.target.Extends second.slots) :
    pair.Related view (actionOne first).2 (actionTwo second).2 (actionOne first).1
      (actionTwo second).1 where
  layoutFirst := runs.aloneFirst.grows.fits
  layoutSecond := runs.aloneSecond.grows.fits
  reached := reached.trans runs.aloneSecond.grows.slots
  fitsFirst := runs.aloneFirst.fits
  fitsSecond := runs.aloneSecond.fits
  alike := runs.alike

/-- Related results are related where nothing is done. -/
theorem Runs.pure (related : pair.Related view first second one two) :
    pair.Runs view first second (pure one) (pure two) where
  aloneFirst := ⟨.refl related.layoutFirst, related.fitsFirst⟩
  aloneSecond := ⟨.refl related.layoutSecond, related.fitsSecond⟩
  alike := related.alike

/-- What runs after another action alone keeps to the layout as well. -/
theorem Alone.bind {action : Analysis Result} {next : Result → Analysis Other}
    (early : pair.Alone view first action)
    (late : pair.Alone other (action first).2 (next (action first).1)) :
    pair.Alone other first (action >>= next) :=
  ⟨early.grows.trans late.grows, late.fits⟩

/-- A loop keeps what every round keeps. -/
theorem Alone.foldlM {Item : Type} {body : Result → Item → Analysis Result} {items : List Item}
    {session : Session} {start : Result} (layoutFits : pair.layout.Fits session.slots)
    (fits : view.fits session.slots start)
    (each : ∀ item ∈ items, ∀ {later : Session} {result : Result}, pair.Grows session later →
      view.fits later.slots result → pair.Alone view later (body result item)) :
    pair.Alone view session (items.foldlM body start) := by
  induction items generalizing session start with
  | nil => exact ⟨.refl layoutFits, fits⟩
  | cons item rest ih =>
      rw [List.foldlM_cons]
      have head := each item List.mem_cons_self (.refl layoutFits) fits
      refine head.bind (ih head.grows.fits head.fits fun other member _ _ grows known => ?_)
      exact each other (List.mem_cons_of_mem _ member) (head.grows.trans grows) known

/-- A loop keeps to the layout if every round does. -/
theorem Alone.forM {Item : Type} {body : Item → Analysis PUnit} {items : List Item}
    {session : Session} (layoutFits : pair.layout.Fits session.slots)
    (each : ∀ item ∈ items, ∀ {later : Session}, pair.Grows session later →
      pair.Alone .any later (body item)) :
    pair.Alone .any session (items.forM body) := by
  induction items generalizing session with
  | nil => exact ⟨.refl layoutFits, trivial⟩
  | cons item rest ih =>
      have head := each item List.mem_cons_self (.refl layoutFits)
      exact head.bind (ih head.grows.fits fun other member _ grows =>
        each other (List.mem_cons_of_mem _ member) (head.grows.trans grows))

/-- Two actions and what follows. The results of the actions are known by equations. -/
theorem Runs.bind_eq {actionOne actionTwo : Analysis Result}
    {nextOne nextTwo : Result → Analysis Other}
    (reached : pair.target.Extends second.slots)
    (early : pair.Runs view first second actionOne actionTwo)
    (late : ∀ {first' second' one two}, actionOne first = (one, first') →
      actionTwo second = (two, second') → pair.Grows first first' → pair.Grows second second' →
      pair.Related view first' second' one two →
      pair.Runs other first' second' (nextOne one) (nextTwo two)) :
    pair.Runs other first second (actionOne >>= nextOne) (actionTwo >>= nextTwo) := by
  have after := late rfl rfl early.aloneFirst.grows early.aloneSecond.grows (early.related reached)
  exact ⟨early.aloneFirst.bind after.aloneFirst, early.aloneSecond.bind after.aloneSecond,
    after.alike⟩

/-- Related runs stay related through whatever relates their results. -/
theorem Runs.bind {actionOne actionTwo : Analysis Result} {nextOne nextTwo : Result → Analysis Other}
    (reached : pair.target.Extends second.slots)
    (early : pair.Runs view first second actionOne actionTwo)
    (late : ∀ {first' second' one two}, pair.Grows first first' → pair.Grows second second' →
      pair.Related view first' second' one two →
      pair.Runs other first' second' (nextOne one) (nextTwo two)) :
    pair.Runs other first second (actionOne >>= nextOne) (actionTwo >>= nextTwo) :=
  early.bind_eq reached fun _ _ growsFirst growsSecond related => late growsFirst growsSecond related

theorem Alone.congr {action same : Analysis Result} (equal : action first = same first)
    (alone : pair.Alone view first same) : pair.Alone view first action := by
  obtain ⟨grows, fits⟩ := alone
  rw [← equal] at grows fits
  exact ⟨grows, fits⟩

/-- Actions that do the same in the two sessions. -/
theorem Runs.congr {actionOne actionTwo sameOne sameTwo : Analysis Result}
    (equalOne : actionOne first = sameOne first) (equalTwo : actionTwo second = sameTwo second)
    (runs : pair.Runs view first second sameOne sameTwo) :
    pair.Runs view first second actionOne actionTwo := by
  refine ⟨runs.aloneFirst.congr equalOne, runs.aloneSecond.congr equalTwo, ?_⟩
  rw [equalOne, equalTwo]
  exact runs.alike

/-- Two runs that decide alike. -/
theorem Runs.ite {actionOne actionTwo otherOne otherTwo : Analysis Result} {left right : Bool}
    (same : first.slots.Extends pair.target → left = right)
    (whenTrue : pair.Runs view first second actionOne actionTwo)
    (whenFalse : pair.Runs view first second otherOne otherTwo) :
    pair.Runs view first second (if left then actionOne else otherOne)
      (if right then actionTwo else otherTwo) := by
  cases left with
  | false =>
      cases right with
      | false => exact whenFalse
      | true =>
          refine ⟨whenFalse.aloneFirst, whenTrue.aloneSecond, fun known => ?_⟩
          cases same (whenFalse.aloneFirst.grows.slots.trans known)
  | true =>
      cases right with
      | false =>
          refine ⟨whenTrue.aloneFirst, whenFalse.aloneSecond, fun known => ?_⟩
          cases same (whenTrue.aloneFirst.grows.slots.trans known)
      | true => exact whenTrue

/-- Two runs of which the first one finds slots that the second one did not begin with. -/
theorem Runs.of_alone {actionOne actionTwo : Analysis Result}
    (unknown : ¬first.slots.Extends pair.target) (aloneFirst : pair.Alone view first actionOne)
    (aloneSecond : pair.Alone view second actionTwo) :
    pair.Runs view first second actionOne actionTwo :=
  ⟨aloneFirst, aloneSecond, fun known => absurd (aloneFirst.grows.slots.trans known) unknown⟩

/-- The comparison with runs that begin with other slots. -/
def toward (pair : Comparison) (target : SlotTable) : Comparison := { pair with target }

/-- The comparison of a run with itself. -/
def self (pair : Comparison) (session : Session) : Comparison := pair.toward session.slots

/-- A result that fits is related to itself, in a run compared with itself. -/
theorem Related.self (layoutFits : pair.layout.Fits first.slots) (fits : view.fits first.slots one)
    (alike : view.alike one one) : (pair.self first).Related view first first one one :=
  ⟨layoutFits, layoutFits, .refl _, fits, fits, fun _ => alike⟩

/-- What a run does whatever it is compared with can be found in a comparison with itself. -/
theorem Alone.of_self {action : Analysis Result} {weaker : View Result}
    (runs : (pair.self first).Runs weaker first first action action)
    (fits : ∀ table result, weaker.fits table result → view.fits table result) :
    pair.Alone view first action := by
  obtain ⟨⟨slots, layoutFits, cancelled⟩, known⟩ := runs.aloneFirst
  exact ⟨⟨slots, layoutFits, cancelled⟩, fits _ _ known⟩

/-- Parts of the results of two runs. -/
theorem Runs.map {actionOne actionTwo : Analysis Result}
    (runs : pair.Runs view first second actionOne actionTwo) (part : Result → Other)
    (fits : ∀ table result, view.fits table result → other.fits table (part result))
    (alike : ∀ one two, view.alike one two → other.alike (part one) (part two)) :
    pair.Runs other first second (part <$> actionOne) (part <$> actionTwo) where
  aloneFirst := ⟨runs.aloneFirst.grows, fits _ _ runs.aloneFirst.fits⟩
  aloneSecond := ⟨runs.aloneSecond.grows, fits _ _ runs.aloneSecond.fits⟩
  alike known := alike _ _ (runs.alike known)

end Structure

section Silent

/-- The action does not change slots and does not stop the analysis. -/
def Silent (action : Analysis Result) : Prop := ∀ session,
  (action session).2.slots = session.slots ∧ (action session).2.cancelled = session.cancelled

theorem Silent.pure (result : Result) : Silent (pure result : Analysis Result) :=
  fun _ => ⟨rfl, rfl⟩

/-- Silent actions are silent together. -/
theorem Silent.bind {action : Analysis Result} {next : Result → Analysis Other}
    (early : Silent action) (late : ∀ result, Silent (next result)) : Silent (action >>= next) := by
  intro session
  have after := late (action session).1 (action session).2
  exact ⟨after.1.trans (early session).1, after.2.trans (early session).2⟩

theorem Silent.ite {left right : Analysis Result} (decision : Bool) (whenTrue : Silent left)
    (whenFalse : Silent right) : Silent (if decision then left else right) := by
  cases decision
  · exact whenFalse
  · exact whenTrue

/-- A loop of silent actions is silent. -/
theorem Silent.forM {Item : Type} {body : Item → Analysis PUnit} (each : ∀ item, Silent (body item))
    (items : List Item) : Silent (items.forM body) := by
  induction items with
  | nil => exact .pure _
  | cons item rest ih => exact .bind (each item) fun _ => ih

theorem Silent.emit (diagnostic : Diagnostic) : Silent (Analysis.emit diagnostic) :=
  fun _ => ⟨rfl, rfl⟩

theorem Silent.mute (muted : Bool) : Silent (Analysis.mute muted) := fun _ => ⟨rfl, rfl⟩

theorem Silent.frame : Silent Analysis.frame := fun _ => ⟨rfl, rfl⟩

theorem Silent.pushFrame (expected? : Option Ty) : Silent (Analysis.pushFrame expected?) :=
  fun _ => ⟨rfl, rfl⟩

theorem Silent.popFrame : Silent Analysis.popFrame := fun _ => ⟨rfl, rfl⟩

/-- Changes of the returns are silent. -/
theorem Silent.modifyReturns (change : List Returned → List Returned) :
    Silent (Analysis.modifyReturns change) := by
  intro session
  obtain ⟨slots, recorder, frames, cancelled, checks⟩ := session
  cases frames <;> exact ⟨rfl, rfl⟩

theorem Silent.clearReturns : Silent Analysis.clearReturns := .modifyReturns _

theorem Silent.checkShape (context : Context) (source target : Ty) (span : Span) :
    Silent (context.checkShape source target span) :=
  .ite _ (.emit _) (.pure _)

/-- A check of a conversion is silent: it reports and does nothing else. -/
theorem Silent.checkConversion (context : Context) (value : Value) (target : Ty) (span : Span)
    (site : Site) : Silent (context.checkConversion value target span site) := by
  unfold Context.checkConversion
  split
  · exact .pure _
  · exact .pure _
  · exact .ite _ (.bind (.emit _) fun _ => .checkShape _ _ _ _) (.checkShape _ _ _ _)

theorem Silent.checkReturn (context : Context) (value : Value) (span : Span) :
    Silent (context.checkReturn value span) := by
  refine .bind .frame fun frame => ?_
  split
  · exact .checkConversion _ _ _ _ _
  · exact .pure _

/-- A silent action keeps to every layout. -/
theorem Silent.alone (pair : Comparison) {action : Analysis Result} (silent : Silent action)
    (fits : pair.layout.Fits first.slots) : pair.Alone .any first action := by
  refine ⟨⟨?_, ?_, fun running => ?_⟩, trivial⟩
  · rw [(silent first).1]
    exact .refl _
  · rw [(silent first).1]
    exact fits
  · rw [(silent first).2]
    exact (Bool.or_eq_false_iff.mp running).1

/-- Silent actions are related whatever they do. -/
theorem Silent.runs {one two : Other} {actionOne actionTwo : Analysis Result}
    (silentOne : Silent actionOne) (silentTwo : Silent actionTwo)
    (related : pair.Related other first second one two) :
    pair.Runs .any first second actionOne actionTwo :=
  ⟨silentOne.alone pair related.layoutFirst, silentTwo.alone pair related.layoutSecond, fun _ => trivial⟩

/-- A silent action of the first run changes nothing that is compared. -/
theorem Runs.silent_left {one two : Other} {action : Analysis PUnit}
    {next : PUnit → Analysis Result} {actionTwo : Analysis Result}
    (related : pair.Related other first second one two) (silent : Silent action)
    (after : ∀ {first'}, pair.Grows first first' →
      pair.Runs view first' second (next ⟨⟩) actionTwo) :
    pair.Runs view first second (action >>= next) actionTwo := by
  have alone := silent.alone pair related.layoutFirst
  have rest := after alone.grows
  exact ⟨alone.bind rest.aloneFirst, rest.aloneSecond, rest.alike⟩

/-- What the second run does silently before may be left out. -/
theorem Runs.silent_right {one two : Other} {action : Analysis PUnit}
    {next : PUnit → Analysis Result} {actionOne : Analysis Result}
    (related : pair.Related other first second one two) (silent : Silent action)
    (after : ∀ {second'}, pair.Grows second second' →
      pair.Runs view first second' actionOne (next ⟨⟩)) :
    pair.Runs view first second actionOne (action >>= next) := by
  have alone := silent.alone pair related.layoutSecond
  have rest := after alone.grows
  exact ⟨rest.aloneFirst, alone.bind rest.aloneSecond, rest.alike⟩

/-- Silent actions that each run does or not. -/
theorem Runs.silent_ite {one two : Other} {decisionOne decisionTwo : Bool}
    {actionOne actionTwo : Analysis PUnit} {nextOne nextTwo : PUnit → Analysis Result}
    (related : pair.Related other first second one two)
    (silentOne : Silent actionOne) (silentTwo : Silent actionTwo)
    (after : ∀ {first' second'}, pair.Grows first first' → pair.Grows second second' →
      pair.Runs view first' second' (nextOne ⟨⟩) (nextTwo ⟨⟩)) :
    pair.Runs view first second (if decisionOne then actionOne >>= nextOne else nextOne ⟨⟩)
      (if decisionTwo then actionTwo >>= nextTwo else nextTwo ⟨⟩) := by
  have left : ∀ {second'}, pair.Grows second second' → pair.Runs view first second'
      (if decisionOne then actionOne >>= nextOne else nextOne ⟨⟩) (nextTwo ⟨⟩) := by
    intro second' growsSecond
    cases decisionOne with
    | false => exact after (.refl related.layoutFirst) growsSecond
    | true =>
        exact .silent_left (related.grow (.refl related.layoutFirst) growsSecond) silentOne
          fun growsFirst => after growsFirst growsSecond
  cases decisionTwo with
  | false => exact left (.refl related.layoutSecond)
  | true => exact .silent_right related silentTwo left

end Silent

end Comparison
end NullFlow
