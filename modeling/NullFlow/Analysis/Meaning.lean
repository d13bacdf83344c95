import NullFlow.Analysis.Value
import NullFlow.FlowGraph.Lowering
/-!
The meaning of an expression for the analysis: what it does to a store when it is evaluated, when
it decides between two ways, and when a value is assigned to it.
-/

namespace NullFlow

/-- The stores after the two outcomes of a condition. -/
structure Branches where
  whenTrue : Store
  whenFalse : Store

/-- The place that an assignment writes to. -/
structure Target where
  slot? : Option SlotId
  declared? : Option Ty
  /-- The place accepts null whatever its type says. -/
  implicit : Bool
  /-- The place stands for several, of which the assignment writes one. -/
  weak : Bool

structure Meaning where
  span : Span
  /-- The type that the front end gave the expression. -/
  ty? : Option Ty
  /-- The expression is the null literal, possibly under casts. -/
  isNull : Bool
  /-- The expression is a literal other than null. -/
  isConstant : Bool
  value : Store → Analysis (Value × Store)
  branches : Store → Analysis Branches
  target : Store → Analysis (Target × Store)
  /-- The analysis of a lambda against an expected delegate. It yields what the lambda returns. -/
  lambda? : Option (Option Ty → Analysis (Option Value))

/-- A part of an expression. Its meaning is made when a rule asks for it. -/
abbrev Part := Thunk Meaning

/-- Code of which every expression is known by its meaning. -/
abbrev MeaningGraph := FlowGraph (Simple Meaning) Meaning

namespace Meaning

/-- Only reachable code is evaluated. -/
def guardValue (rule : Store → Analysis (Value × Store)) (store : Store) :
    Analysis (Value × Store) :=
  if store.isReachable then rule store else return (.unresolved, store)

/-- Only reachable conditions are evaluated. -/
def guardBranches (rule : Store → Analysis Branches) (store : Store) : Analysis Branches :=
  if store.isReachable then rule store else return ⟨store, store⟩

/-- The target of an expression that is no variable, member or element. -/
def plainTarget (ty? : Option Ty) (value : Store → Analysis (Value × Store)) (store : Store) :
    Analysis (Target × Store) := do
  let (result, store) ← value store
  return (⟨result.slot?, ty?, false, false⟩, store)

/-- An expression that is known by its value. Both outcomes of it as a condition know the same. -/
def ofValue (span : Span) (ty? : Option Ty) (rule : Store → Analysis (Value × Store)) :
    Meaning where
  span
  ty?
  isNull := false
  isConstant := false
  value := guardValue rule
  branches := guardBranches fun store => do
    let (_, store) ← rule store
    return ⟨store, store⟩
  target := plainTarget ty? (guardValue rule)
  lambda? := none

/-- An expression that is known by its outcomes as a condition. Its value is never null. -/
def ofBranches (span : Span) (ty? : Option Ty) (rule : Store → Analysis Branches) : Meaning :=
  let value : Store → Analysis (Value × Store) := fun store => do
    let branches ← rule store
    return (.loose .notNull ty?, branches.whenTrue.join (← Analysis.slots) branches.whenFalse)
  { ofValue span ty? value with branches := guardBranches rule }

end Meaning

namespace Part

def span (part : Part) : Span := part.get.span

def ty? (part : Part) : Option Ty := part.get.ty?

def isNull (part : Part) : Bool := part.get.isNull

def isConstant (part : Part) : Bool := part.get.isConstant

def value (part : Part) : Store → Analysis (Value × Store) := part.get.value

def branches (part : Part) : Store → Analysis Branches := part.get.branches

def target (part : Part) : Store → Analysis (Target × Store) := part.get.target

def lambda? (part : Part) : Option (Option Ty → Analysis (Option Value)) := part.get.lambda?

end Part
end NullFlow
