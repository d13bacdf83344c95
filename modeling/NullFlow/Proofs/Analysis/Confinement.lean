import NullFlow.Proofs.Analysis.Regions.Meanings
import NullFlow.Proofs.Store.Forest
/-!
Everything that is analyzed keeps to the slot table. The table of the session evolves by operations on
its own slots, the results know slots of the table alone, and the analysis stops only if the caller
wants it to stop. The region of all code is the whole table: it is left nowhere, whatever the code
names or writes. A slot is looked up only where it was just asked for or declared anew, where it is
assigned next, or where stores are joined or compared that have an entry for it.
-/

namespace NullFlow

/-- What every part of an analysis keeps. -/
structure Session.Grows (context : Context) (before after : Session) : Prop where
  /-- The table is changed by operations on its own slots alone. -/
  evolves : before.slots.Evolves after.slots
  stopped : after.cancelled = true → before.cancelled = true ∨ context.token.stops = true

/-- No slot of the session is lost or gets another key. -/
theorem Session.Grows.slots {context : Context} {before after : Session}
    (grows : before.Grows context after) : before.slots.Grows after.slots := grows.evolves.grows

/-- The action keeps to the slot table, and its result fits the table after it. -/
structure Confined {Result : Type} (context : Context) (session : Session)
    (action : Analysis Result) (fits : SlotTable → Result → Prop) : Prop where
  grows : session.Grows context (action session).2
  fits : fits (action session).2.slots (action session).1

/-- The place and the store know slots of the table alone. -/
structure SlotTable.Knows (table : SlotTable) (slot? : Option SlotId) (store : Store) : Prop where
  place : table.Has slot?
  store : store.Within table

def ValueFits (table : SlotTable) (result : Value × Store) : Prop :=
  table.Knows result.1.slot? result.2

def TargetFits (table : SlotTable) (result : Target × Store) : Prop :=
  table.Knows result.1.slot? result.2

structure BranchesFit (table : SlotTable) (branches : Branches) : Prop where
  whenTrue : branches.whenTrue.Within table
  whenFalse : branches.whenFalse.Within table

/-- Wherever the rule is applied to a store of the table, it keeps to the table. -/
def Confines {Result : Type} (context : Context) (rule : Store → Analysis Result)
    (fits : SlotTable → Result → Prop) : Prop :=
  ∀ ⦃session : Session⦄ ⦃store : Store⦄, store.Within session.slots →
    Confined context session (rule store) fits

/-- The meaning keeps to the slot table, whatever is asked of it. -/
structure Meaning.Confined (context : Context) (meaning : Meaning) : Prop where
  value : Confines context meaning.value ValueFits
  branches : Confines context meaning.branches BranchesFit
  target : Confines context meaning.target TargetFits
  lambda : ∀ analyze ∈ meaning.lambda?, ∀ (delegate? : Option Ty) (session : Session),
    NullFlow.Confined context session (analyze delegate?) fun _ _ => True

/-- The stores that a block sends know slots of the table alone. -/
def OutflowFits (table : SlotTable) (outflow : Outflow) : Prop :=
  ∀ edge ∈ outflow, edge.2.Within table

/-- A solution has an entry for every block, and its entries know slots of the table alone. -/
structure Solution.Fits (graph : MeaningGraph) (table : SlotTable) (solution : Solution) :
    Prop where
  size : solution.entries.size = graph.blocks.size
  entry : ∀ id, (solution.entry id).Within table

def SolutionFits (graph : MeaningGraph) (table : SlotTable) (solution? : Option Solution) : Prop :=
  ∀ solution ∈ solution?, solution.Fits graph table

namespace Region

/-- The region of all slots of the table. -/
def whole : Region where
  Valid _ := True
  Grows := SlotTable.Evolves
  Place table slot := slot < table.size
  Holds table store := store.Within table
  Reads _ := True
  Names _ := True
  Writes := True
  Loses _ := True
  refl _ := .refl
  trans := Relation.ReflTransGen.trans
  valid_grow _ _ := trivial
  place_grow inside evolves := Nat.lt_of_lt_of_le inside evolves.grows.size_le
  holds_grow within evolves := within.grow evolves.grows
  root := by
    intro table key declared _ noParent _
    have older : table.Has key.parent? := noParent ▸ ⟨fun _ none => by cases none⟩
    have noMember : ∀ parent name, key = .member parent name →
        (table.key? parent).any SlotKey.isStable = true := by
      rintro parent name rfl
      cases noParent
    exact ⟨SlotTable.evolves_intern declared older noMember,
      SlotTable.lt_size_of_key? (SlotTable.key?_intern table key declared)⟩
  derive := by
    intro table parent key declared _ inside derived members
    have older : table.Has key.parent? :=
      derived ▸ ⟨fun _ same => Option.some.inj same ▸ inside⟩
    have stable : ∀ owner name, key = .member owner name →
        (table.key? owner).any SlotKey.isStable = true := by
      rintro owner name rfl
      obtain rfl := Option.some.inj derived
      exact (members name rfl).1
    exact ⟨SlotTable.evolves_intern declared older stable,
      SlotTable.lt_size_of_key? (SlotTable.key?_intern table key declared)⟩
  redeclare declared inside := SlotTable.evolves_redeclare inside declared
  unreachable := Store.within_unreachable
  assign state inside within := within.assign (fun _ same => Option.some.inj same ▸ inside) state
  join other first second := first.join second other
  forget _ _ _ within := within.forget _
  invalidate _ _ within := within.invalidate _

variable {context : Context} {session : Session}

/-- The solver widens slots of the table alone. -/
theorem whole_hosts : whole.Hosts where
  writes := trivial
  widen withinFirst withinSecond changed within := by
    have inside := Store.changedSlots_inside withinFirst withinSecond _ changed
    exact whole.assign .maybeNull inside within

/-- The region of all slots covers every expression. -/
theorem whole_covers (context : Context) (expr : Expr) : whole.CoversExpr context expr :=
  covered context expr
    ⟨fun _ _ _ _ => trivial, fun _ _ _ _ => trivial, fun _ _ _ _ => trivial⟩
    fun _ _ _ _ _ => ⟨trivial, fun _ _ _ _ _ _ _ => trivial⟩

/-- The region of all slots covers the graph of all code. -/
theorem whole_coversGraph (context : Context) (code : Code) :
    whole.CoversGraph context (code.graph context) :=
  graph_covered_of (fun _ _ => trivial) fun expr _ => whole_covers context expr

theorem whole_coversGraph_ofValue (context : Context) (value : Expr) (span : Span) :
    whole.CoversGraph context (.ofValue (value.meaning context) span) :=
  graph_covered_ofValue (whole_covers context value).covers span

/-- What the region of all slots knows lies in the table. -/
theorem Knows.inside {table : SlotTable} {slot? : Option SlotId} {store : Store}
    (known : whole.Knows table slot? store) : table.Knows slot? store :=
  ⟨⟨known.place.place⟩, known.store⟩

/-- What runs in the region of all slots is confined to the table. -/
theorem Runs.confined {Result : Type} {action : Analysis Result}
    {fits weaker : SlotTable → Result → Prop} (runs : whole.Runs context session action fits)
    (holds : ∀ table result, fits table result → weaker table result) :
    Confined context session action weaker := by
  obtain ⟨continues, isFit⟩ := runs trivial
  exact ⟨⟨continues.slots, continues.stopped⟩, holds _ _ isFit⟩

end Region

open Region (whole whole_hosts whole_covers)

variable {context : Context} {session : Session}

/-- Whatever is asked of an expression, its meaning keeps to the slot table. -/
theorem meaning_confined (context : Context) (expr : Expr) :
    (expr.meaning context).Confined context := by
  obtain ⟨covers, ofTarget⟩ := whole_covers context expr
  have target := ofTarget fun _ _ _ _ _ _ _ => trivial
  constructor
  case value => exact fun _ _ within => (covers.value within).confined fun _ _ fits => fits.known.inside
  case branches =>
    exact fun _ _ within => (covers.branches within).confined fun _ _ fits =>
      ⟨fits.whenTrue, fits.whenFalse⟩
  case target => exact fun _ _ within => (target within).confined fun _ _ known => known.inside
  case lambda =>
    exact fun analyze isLambda delegate? session =>
      (covers.lambda analyze isLambda delegate? session).confined fun _ _ fits => fits

variable {graph : MeaningGraph}

/-- A block sends stores of the table alone. -/
theorem Block.transfer_confines {block : Block (Simple Meaning) Meaning}
    (parts : block.Over (whole.CoversSimple context) (whole.Covers context)) :
    Confines context (block.transfer context) OutflowFits := fun _ _ within =>
  (Region.transfer_admits trivial parts within).confined fun _ _ fits => fits

/-- A solution whose entries are stores of the table fits it. -/
theorem Solution.fits_of_entries {table : SlotTable} {solution? : Option Solution}
    (fits : whole.SolutionFits graph table solution?) : SolutionFits graph table solution? :=
  fun solution isAnswer => ⟨(fits solution isAnswer).size, (fits solution isAnswer).entry⟩

section Runs

variable (covers : whole.CoversGraph context graph)
include covers

/-- Solving is confined to the table. -/
theorem solve_confined : Confined context session (graph.solve context Store.entry)
    (SolutionFits graph) :=
  (Region.solve_runs whole_hosts covers Store.within_entry).confined
    fun _ _ fits => Solution.fits_of_entries fits

/-- Solving and reporting is confined to the table. -/
theorem analyze_confined : Confined context session (graph.analyze context Store.entry)
    (SolutionFits graph) :=
  (Region.analyze_runs whole_hosts covers Store.within_entry).confined
    fun _ _ fits => Solution.fits_of_entries fits

/-- The solver has an answer unless it has to stop. -/
theorem solve_answers (running : session.cancelled = false)
    (noStop : context.token.stops = false) :
    ∃ solution, (graph.solve context Store.entry session).1 = some solution :=
  Region.solve_answers whole_hosts covers Store.within_entry trivial running noStop

/-- The analysis has an answer unless it has to stop. -/
theorem analyze_answers (running : session.cancelled = false)
    (noStop : context.token.stops = false) :
    ∃ solution, (graph.analyze context Store.entry session).1 = some solution :=
  Region.analyze_answers whole_hosts covers Store.within_entry trivial running noStop

end Runs

end NullFlow
