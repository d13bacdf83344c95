import NullFlow.Analysis.Call
import NullFlow.Analysis.Solver
import NullFlow.Code.Expr
/-!
The rules that give every kind of expression its meaning, from the meanings of its parts.
-/

namespace NullFlow

section Values

variable (context : Context)

def readRule (source : Variable) (store : Store) : Analysis (Value × Store) := do
  let slot ← Analysis.onSlots (SlotTable.intern (.localVar source.id) source.ty.declaredState)
  return (.ofSlot (← Analysis.slots) store source.ty (some slot), store)

def thisRule (ty? : Option Ty) (store : Store) : Analysis (Value × Store) := do
  let slot ← Analysis.onSlots (SlotTable.intern .this .notNull)
  let ty? := (context.thisType?.orElse fun _ => ty?).map (Ty.withState .notNull)
  return (⟨.notNull, ty?, some slot, []⟩, store)

def literalValue (ty? : Option Ty) : Literal → Value
  | .null => .loose .maybeNull (some (ty?.getD (.null .plain)))
  | _ => .loose .notNull (ty?.map (Ty.withState .notNull))

/-- The default value of a type. Only value types have one that is not null. -/
def defaultState : Option Ty → FlowState
  | some (.value ..) => .notNull
  | _ => .maybeNull

/-- A cast keeps the place and the state of its operand. To a value type it never yields null. -/
def castRule (ty? : Option Ty) (operand : Part) (store : Store) : Analysis (Value × Store) := do
  let (inner, store) ← operand.value store
  let state := match ty? with
    | some (.value ..) => .notNull
    | _ => inner.state
  return ({ inner with state, ty? := ty?.map (Ty.withState state) }, store)

/-- The value of a member or element of the declared type. Its slot takes over the declaration. -/
def placeValue (declared : Ty) (slot? : Option SlotId) (store : Store) : Analysis Value := do
  match slot? with
  | none => return .loose declared.declaredState (some declared)
  | some slot => do
      Analysis.onSlots (modify fun table => table.redeclare slot declared.declaredState)
      return .ofSlot (← Analysis.slots) store declared (some slot)

def memberRule (receiver : Part) (member : Member) (store : Store) :
    Analysis (Value × Store) := do
  let (base, store) ← receiver.value store
  let store ← context.dereference base receiver.span store
  match context.memberType? base.ty? member with
  | none => return (.unresolved, store)
  | some declared => do
      let slot? ← Analysis.onSlots
        (SlotTable.member base.slot? member.name declared.declaredState)
      return (← placeValue declared slot? store, store)

/-- Evaluates the parts of an element access and dereferences the array. -/
def evaluateIndex (receiver position : Part) (store : Store) : Analysis (Value × Store) := do
  let (base, store) ← receiver.value store
  let (_, store) ← position.value store
  return (base, ← context.dereference base receiver.span store)

/-- An element of an array, or what an indexer is declared to return. -/
def indexRule (ty? : Option Ty) (receiver position : Part) (store : Store) :
    Analysis (Value × Store) := do
  let (base, store) ← evaluateIndex context receiver position store
  match base.ty?.bind Ty.element? with
  | some element => do
      let slot? ← Analysis.onSlots (SlotTable.element base.slot? element.declaredState)
      return (← placeValue element slot? store, store)
  | none =>
      match ty? with
      | some ty => return (.loose ty.declaredState (some ty), store)
      | none => return (.unresolved, store)

/-- Evaluates expressions one after the other. -/
def evaluateAll : List Part → Store → Analysis (List Value × Store)
  | [], store => return ([], store)
  | part :: rest, store => do
      let (value, store) ← part.value store
      let (values, store) ← evaluateAll rest store
      return (value :: values, store)

/-- Stores expressions into the elements of a new array of the given type. -/
def fillArray (element : Ty) : List Part → Store → Analysis Store
  | [], store => return store
  | part :: rest, store => do
      let (value, store) ← part.value store
      context.checkConversion value element part.span .assignment
      fillArray element rest store

def newArray (element : Ty) : Value :=
  .loose .notNull (some (.array element FlowState.notNull.mark))

/-- An array without a written type takes the type that its items have in common. Its elements may
be null if an item may be. -/
def implicitArrayRule (items : List Part) (store : Store) : Analysis (Value × Store) := do
  let (values, store) ← evaluateAll items store
  let unknown := Ty.error "?" .plain
  let candidates := values.map fun value => value.ty?.getD unknown
  match context.classes.bestCommon? candidates with
  | none => return (newArray unknown, store)
  | some (.error ..) => return (newArray unknown, store)
  | some best => do
      let element := best.withState (FlowState.joinAll (values.map Value.state))
      (items.zip values).forM fun (item, value) =>
        match value.ty? with
        | some source => context.checkShape source element item.span
        | none => return ()
      return (newArray element, store)

def arrayRule (element? : Option Ty) (items : List Part) (store : Store) :
    Analysis (Value × Store) :=
  match element? with
  | none => implicitArrayRule context items store
  | some element => do return (newArray element, ← fillArray context element items store)

/-- A choice has the state of both sides, unless one of them is never taken. -/
def conditionalRule (ty? : Option Ty) (condition whenTrue whenFalse : Part) (store : Store) :
    Analysis (Value × Store) := do
  let branches ← condition.branches store
  let (first, afterFirst) ← whenTrue.value branches.whenTrue
  let (second, afterSecond) ← whenFalse.value branches.whenFalse
  let store := afterFirst.join (← Analysis.slots) afterSecond
  let value := match branches.whenTrue.isReachable, branches.whenFalse.isReachable with
    | true, false => .loose first.state first.ty?
    | false, true => .loose second.state second.ty?
    | false, false => .unresolved
    | true, true =>
        let state := first.state.join second.state
        let common? := (context.commonType? first.ty? second.ty?).orElse fun _ => ty?
        .loose state (common?.map (Ty.withState state))
  return (value, store)

/-- The type of a value that a fallback can judge. -/
def knownType? (value : Value) : Option Ty := value.ty?.filter fun ty => !(ty.isNull || ty.isError)

/-- A fallback has the state of its right side, which is evaluated if the left one is null. -/
def coalesceRule (left right : Part) (store : Store) : Analysis (Value × Store) := do
  let (first, store) ← left.value store
  if left.isConstant then return (.loose first.state first.ty?, store)
  let known? := knownType? first
  if !first.state.isMaybeNull && known?.isSome then
    Analysis.emit (.neverNull left.span context.method)
  let whenPresent := store.assign first.slot? .notNull
  let (second, afterRight) ← right.value (store.assign first.slot? .maybeNull)
  let store := whenPresent.join (← Analysis.slots) afterRight
  match known?, second.ty? with
  | some target, some source => context.checkShape source target right.span
  | _, _ => pure ()
  let ty? := known?.orElse fun _ => second.ty?
  return (.loose second.state (ty?.map (Ty.withState second.state)), store)

/-- An operation other than a comparison or a connective. -/
def operationRule (ty? : Option Ty) (operands : List Part) (store : Store) :
    Analysis (Value × Store) := do
  let (_, store) ← evaluateAll operands store
  return (.loose .notNull ty?, store)

/-- The promise that a value is not null also covers the marks inside its type. -/
def suppressRule (operand : Part) (store : Store) : Analysis (Value × Store) := do
  let (inner, store) ← operand.value store
  let ty? := inner.ty?.map fun ty => ty.obliviousNested.withState .notNull
  return ({ inner with state := .notNull, ty? }, store.assign inner.slot? .notNull)

/-- The value of an assignment is the assigned value. A weak target keeps what it may have held. -/
def assignRule (target value : Part) (store : Store) : Analysis (Value × Store) := do
  let (place, store) ← target.target store
  let (result, store) ← value.value store
  match place.declared? with
  | some declared =>
      if !place.implicit then context.checkConversion result declared value.span .assignment
  | none => pure ()
  let store ←
    if place.weak then do
      let old := store.lookup (← Analysis.slots) place.slot?
      pure (store.assign place.slot? (old.join result.state))
    else Analysis.onSlots (store.write place.slot? result)
  return (⟨result.state, result.ty?, place.slot?, []⟩, store)

/-- Unresolved code is evaluated for its effects. -/
def badRule (children : List Part) (store : Store) : Analysis (Value × Store) := do
  let (_, store) ← evaluateAll children store
  return (.unresolved, store)

end Values

section Targets

variable (context : Context)

def variableTarget (source : Variable) (store : Store) : Analysis (Target × Store) := do
  let slot ← Analysis.onSlots (SlotTable.intern (.localVar source.id) source.ty.declaredState)
  return (⟨some slot, some source.ty, source.implicit, false⟩, store)

/-- A member of a receiver that is not tracked may be any member of the name. -/
def memberTarget (receiver : Part) (member : Member) (store : Store) :
    Analysis (Target × Store) := do
  let (base, store) ← receiver.value store
  let store ← context.dereference base receiver.span store
  let declared? := context.memberType? base.ty? member
  let slot? ← match declared? with
    | some declared =>
        Analysis.onSlots (SlotTable.member base.slot? member.name declared.declaredState)
    | none => pure none
  let store ← match slot? with
    | some _ => pure store
    | none => do pure (store.invalidate (← Analysis.slots) member.name)
  return (⟨slot?, declared?, false, false⟩, store)

/-- One slot stands for all elements of an array. -/
def indexTarget (ty? : Option Ty) (receiver position : Part) (store : Store) :
    Analysis (Target × Store) := do
  let (base, store) ← evaluateIndex context receiver position store
  match base.ty?.bind Ty.element? with
  | some element => do
      let slot? ← Analysis.onSlots (SlotTable.element base.slot? element.declaredState)
      return (⟨slot?, some element, false, true⟩, store)
  | none => return (⟨none, ty?, false, true⟩, store)

end Targets

section Conditions

/-- A boolean literal rules one outcome out. -/
def literalBranches (value : Literal) (store : Store) : Branches :=
  match value with
  | .bool true => ⟨store, .unreachable⟩
  | .bool false => ⟨.unreachable, store⟩
  | _ => ⟨store, store⟩

def notRule (operand : Part) (store : Store) : Analysis Branches := do
  let branches ← operand.branches store
  return ⟨branches.whenFalse, branches.whenTrue⟩

def andRule (left right : Part) (store : Store) : Analysis Branches := do
  let first ← left.branches store
  let second ← right.branches first.whenTrue
  return ⟨second.whenTrue, first.whenFalse.join (← Analysis.slots) second.whenFalse⟩

def orRule (left right : Part) (store : Store) : Analysis Branches := do
  let first ← left.branches store
  let second ← right.branches first.whenFalse
  return ⟨first.whenTrue.join (← Analysis.slots) second.whenTrue, second.whenFalse⟩

/-- What is known if two values are equal and if they are not. A value that equals one that is not
null is not null either. -/
def compareValues (left right : Part) (first second : Value) (store : Store) : Branches :=
  match left.isNull, right.isNull with
  | false, true => ⟨store.assign first.slot? .maybeNull, store.assign first.slot? .notNull⟩
  | true, false => ⟨store.assign second.slot? .maybeNull, store.assign second.slot? .notNull⟩
  | false, false =>
      let equal := if second.state.isMaybeNull then store else store.assign first.slot? .notNull
      let equal := if first.state.isMaybeNull then equal else equal.assign second.slot? .notNull
      ⟨equal, store⟩
  | true, true => ⟨store, store⟩

/-- The outcomes of a test for equality, or for its opposite. -/
def equalityRule (negated : Bool) (left right : Part) (store : Store) : Analysis Branches := do
  let (first, store) ← left.value store
  let (second, store) ← right.value store
  let branches := compareValues left right first second store
  return if negated then ⟨branches.whenFalse, branches.whenTrue⟩ else branches

def testRule (operand : Part) (pattern : Pattern) (store : Store) : Analysis Branches := do
  let (inner, store) ← operand.value store
  return match pattern with
    | .null => ⟨store.assign inner.slot? .maybeNull, store.assign inner.slot? .notNull⟩
    | .type _ => ⟨store.assign inner.slot? .notNull, store⟩

end Conditions

section Meanings

variable (context : Context)

/-- The meaning of a lambda. Its body is analyzed wherever the lambda is evaluated. -/
def lambdaMeaning (span : Span) (ty? : Option Ty) (graph : Thunk MeaningGraph) : Meaning :=
  let analyze : Option Ty → Analysis (Option Value) := fun delegate? =>
    graph.get.analyzeLambda context delegate?
  let rule : Store → Analysis (Value × Store) := fun store => do
    let _ ← analyze ty?
    return (.loose .notNull ty?, store)
  { Meaning.ofValue span ty? rule with lambda? := some analyze }

/-- The meaning of an expression from the meanings of its parts. -/
def Meaning.ofNode (node : Expr.Results Meaning) : Meaning :=
  let span := node.span
  let ty? := node.ty?
  match node.kind with
  | .read source => { ofValue span ty? (readRule source) with target := variableTarget source }
  | .this => ofValue span ty? (thisRule context ty?)
  | .literal value =>
      { ofValue span ty? fun store => return (literalValue ty? value, store) with
        isNull := value = .null
        isConstant := value ≠ .null
        branches := guardBranches fun store => return literalBranches value store }
  | .defaultValue =>
      let state := defaultState ty?
      ofValue span ty? fun store => return (.loose state (ty?.map (Ty.withState state)), store)
  | .cast operand => { ofValue span ty? (castRule ty? operand) with isNull := operand.get.isNull }
  | .member (some receiver) member =>
      { ofValue span ty? (memberRule context receiver member) with
        target := memberTarget context receiver member }
  | .member none member =>
      { ofValue span ty? fun store =>
          return (.loose member.ty.declaredState (some member.ty), store) with
        target := fun store => return (⟨none, some member.ty, false, false⟩, store) }
  | .index receiver position =>
      { ofValue span ty? (indexRule context ty? receiver position) with
        target := indexTarget context ty? receiver position }
  | .call receiver? method arguments =>
      ofValue span ty? (callRule context ty? receiver? method arguments)
  | .create constructor? arguments initializers =>
      ofValue span ty? (createRule context ty? constructor? arguments initializers)
  | .array element? items => ofValue span ty? (arrayRule context element? items)
  | .conditional condition whenTrue whenFalse =>
      ofValue span ty? (conditionalRule context ty? condition whenTrue whenFalse)
  | .coalesce left right => ofValue span ty? (coalesceRule context left right)
  | .binary .equal left right => ofBranches span ty? (equalityRule false left right)
  | .binary .notEqual left right => ofBranches span ty? (equalityRule true left right)
  | .binary .and left right => ofBranches span ty? (andRule left right)
  | .binary .or left right => ofBranches span ty? (orRule left right)
  | .binary .other left right => ofValue span ty? (operationRule ty? [left, right])
  | .unary .not operand => ofBranches span ty? (notRule operand)
  | .unary .other operand => ofValue span ty? (operationRule ty? [operand])
  | .test operand pattern => ofBranches span ty? (testRule operand pattern)
  | .suppress operand => ofValue span ty? (suppressRule operand)
  | .assign target value => ofValue span ty? (assignRule context target value)
  | .lambda _ (.expr value) =>
      lambdaMeaning context span ty? (.mk fun _ => FlowGraph.ofValue value.get value.get.span)
  | .lambda _ (.block code) =>
      lambdaMeaning context span ty? (.mk fun _ => FlowGraph.ofStmt code.get)
  | .bad children => ofValue span ty? (badRule children)

end Meanings

/-- The meaning of an expression in the analysis of a method. -/
def Expr.meaning (context : Context) (expr : Expr) : Meaning := expr.fold (Meaning.ofNode context)

/-- The graph of code, with the meanings of its expressions. -/
def Code.graph (context : Context) (code : Code) : MeaningGraph :=
  FlowGraph.ofStmt (foldStmt (Meaning.ofNode context) code)

end NullFlow
