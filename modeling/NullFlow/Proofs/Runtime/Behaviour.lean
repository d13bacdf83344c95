import NullFlow.Proofs.Code.Contents
import NullFlow.Proofs.Execution.Machine
import NullFlow.Proofs.Runtime.Memory
/-!
The behaviour of expressions when code runs. Locals, constants, conversions, calls, choices, tests
and assignments to locals are modelled. Where the code evaluates anything else, the execution stops.
-/

namespace NullFlow

/-- The expression is of a kind that is modelled. It is a local, a constant, a conversion, a call of a
method without type parameters, a new object, a choice, a test or an assignment. -/
def ExprKind.isPlain {Var Child Code : Type} : ExprKind Var Child Code → Bool
  | .read _ => true
  | .literal _ => true
  | .defaultValue => true
  | .cast _ => true
  | .call _ method _ => method.typeParameters.isEmpty
  | .create _ arguments initializers => arguments.isEmpty && initializers.isEmpty
  | .conditional .. => true
  | .coalesce .. => true
  | .binary operator .. => operator != .other
  | .unary operator _ => operator == .not
  | .test .. => true
  | .assign .. => true
  | _ => false

/-- A new object gets nothing to start with. -/
theorem ExprKind.of_plain_create {Var Child Code : Type} {constructor? : Option Signature}
    {arguments : List (Argument Child)} {initializers : List (Initializer Child)}
    (plain : (create constructor? arguments initializers : ExprKind Var Child Code).isPlain = true) :
    arguments = [] ∧ initializers = [] := by
  obtain ⟨noArguments, noInitializers⟩ := Bool.and_eq_true_iff.mp plain
  exact ⟨List.isEmpty_iff.mp noArguments, List.isEmpty_iff.mp noInitializers⟩

/-- What an expression does when it runs. -/
structure Behaviour where
  span : Span
  /-- The local that the expression is. -/
  source? : Option Variable
  /-- Evaluates the expression to a value. -/
  value : Evaluation
  /-- Evaluates the expression as a condition. -/
  decide : Evaluation

namespace Behaviour

/-- An expression that is known by its value. As a condition it may turn out either way. -/
def ofValue (span : Span) (value : Evaluation) : Behaviour where
  span
  source? := none
  value
  decide memory := do
    let answer ← value memory
    return answer.2.toss

/-- An expression that is known by its outcome as a condition. Its value is a truth value. -/
def ofDecision (span : Span) (decide : Evaluation) : Behaviour where
  span
  source? := none
  value memory := do
    let answer ← decide memory
    return (false, answer.2)
  decide

section Rules

variable (operand left right condition whenTrue whenFalse : Behaviour)

/-- Literals are null or not by their text, and the default value of a type is null unless the type
is a value type. -/
def literal (value : Literal) : Evaluation := fun memory => return (value = .null, memory)

/-- A boolean literal decides a condition. -/
def literalDecision (value : Literal) : Evaluation := fun memory =>
  match value with
  | .bool holds => return (holds, memory)
  | _ => return memory.toss

def default (ty? : Option Ty) : Evaluation := fun memory => return (!ty?.any Ty.isValue, memory)

/-- A cast keeps the value. A cast to a value type stops the execution at null. -/
def cast (ty? : Option Ty) : Evaluation := fun memory => do
  let answer ← operand.value memory
  if answer.1 && ty?.any Ty.isValue then throw answer.2.stop else return answer

/-- Evaluates the receiver of a call. At null the execution stops. -/
def receive (receiver? : Option Behaviour) (memory : Memory) : Except Memory Memory :=
  match receiver? with
  | none => return memory
  | some receiver => do
      let answer ← receiver.value memory
      if answer.1 then throw (answer.2.stopAt receiver.span) else return answer.2

/-- Evaluates expressions one after the other. -/
def each : List Behaviour → Memory → Except Memory Memory
  | [], memory => return memory
  | first :: rest, memory => do
      let answer ← first.value memory
      each rest answer.2

/-- A call returns any value that the return type declares. -/
def call (receiver? : Option Behaviour) (arguments : List Behaviour) (signature : Signature) :
    Evaluation := fun memory => do
  let memory ← receive receiver? memory
  let memory ← each arguments memory
  return memory.declared signature.returnType

def conditional : Evaluation := fun memory => do
  let answer ← condition.decide memory
  if answer.1 then whenTrue.value answer.2 else whenFalse.value answer.2

def coalesce : Evaluation := fun memory => do
  let answer ← left.value memory
  if answer.1 then right.value answer.2 else return answer

def negation : Evaluation := fun memory => do
  let answer ← operand.decide memory
  return (!answer.1, answer.2)

def conjunction : Evaluation := fun memory => do
  let answer ← left.decide memory
  if answer.1 then right.decide answer.2 else return answer

def disjunction : Evaluation := fun memory => do
  let answer ← left.decide memory
  if answer.1 then return answer else right.decide answer.2

/-- Whether two values are equal. Null equals null and nothing else. -/
def compare (first second : Bool) (memory : Memory) : Bool × Memory :=
  if first || second then (first && second, memory) else memory.toss

/-- A test for equality, or for its opposite. -/
def equality (negated : Bool) : Evaluation := fun memory => do
  let first ← left.value memory
  let second ← right.value first.2
  let answer := compare first.1 second.1 second.2
  return (answer.1 != negated, answer.2)

/-- A test of a value for a pattern. No type pattern fits null. -/
def test (pattern : Pattern) : Evaluation := fun memory => do
  let answer ← operand.value memory
  match pattern with
  | .null => return answer
  | .type _ => if answer.1 then return (false, answer.2) else return answer.2.toss

def assign (target : Variable) : Evaluation := fun memory => do
  let answer ← operand.value memory
  return (answer.1, answer.2.write target.id answer.1)

end Rules

/-- The behaviour of an expression that is not modelled. -/
def unmodelled (span : Span) : Behaviour := ofValue span fun memory => throw memory.stop

/-- The behaviour of an expression from the behaviours of its parts. -/
def ofNode (node : Expr.Results Behaviour) : Behaviour :=
  let span := node.span
  match node.kind with
  | .read source =>
      { ofValue span fun memory => return (memory.isNull source.id, memory) with
        source? := some source }
  | .literal value => { ofValue span (literal value) with decide := literalDecision value }
  | .defaultValue => ofValue span (default node.ty?)
  | .cast operand => ofValue span (cast operand.get node.ty?)
  | .call receiver? signature arguments =>
      ofValue span (call (receiver?.map Thunk.get)
        (arguments.map fun argument => argument.value.get) signature)
  | .create _ [] [] => ofValue span fun memory => return (false, memory)
  | .conditional condition whenTrue whenFalse =>
      ofValue span (conditional condition.get whenTrue.get whenFalse.get)
  | .coalesce left right => ofValue span (coalesce left.get right.get)
  | .binary .equal left right => ofDecision span (equality left.get right.get false)
  | .binary .notEqual left right => ofDecision span (equality left.get right.get true)
  | .binary .and left right => ofDecision span (conjunction left.get right.get)
  | .binary .or left right => ofDecision span (disjunction left.get right.get)
  | .unary .not operand => ofDecision span (negation operand.get)
  | .test operand pattern => ofDecision span (test operand.get pattern)
  | .assign target value =>
      match target.get.source? with
      | some source => ofValue span (assign value.get source)
      | none => unmodelled span
  | _ => unmodelled span

end Behaviour

/-- What an expression does when it runs. -/
def Expr.behaviour (expr : Expr) : Behaviour := expr.fold Behaviour.ofNode

namespace Memory

/-- Evaluates an expression for its effects. -/
def effect (expr : Expr) (memory : Memory) : Except Memory Memory :=
  Prod.snd <$> expr.behaviour.value memory

/-- Evaluates an expression, if there is one, for its effects. -/
def effectOption : Option Expr → Memory → Except Memory Memory
  | none, memory => return memory
  | some expr, memory => memory.effect expr

/-- Executes a simple statement. A declaration without a value leaves the local as it is. -/
def executeSimple : Simple Expr → Memory → Except Memory Memory
  | .declare _ none, memory => return memory
  | .declare target (some value), memory => do
      let answer ← value.behaviour.value memory
      return answer.2.write target.id answer.1
  | .evaluate expr, memory => memory.effect expr

/-- The machine that runs code on memories. -/
def machine : Machine (Simple Expr) Expr Memory where
  simple := executeSimple
  update := effect
  decide condition memory := condition.behaviour.decide memory
  choose scrutinee ways memory := do
    let answer ← scrutinee.behaviour.value memory
    answer.2.pickWay answer.1 ways
  answer := effectOption
  raise := effectOption

end Memory

end NullFlow

/-!
Evaluations that change no local. Only assignments do.
-/

namespace NullFlow

/-- The evaluation changes no local. -/
def Evaluation.Frames (evaluation : Evaluation) : Prop :=
  ∀ memory, Concludes (evaluation memory) (fun _ => True) fun answer =>
    answer.2.isNull = memory.isNull

structure Behaviour.Frames (behaviour : Behaviour) : Prop where
  value : Evaluation.Frames behaviour.value
  decide : Evaluation.Frames behaviour.decide

variable {span : Span}

/-- A behaviour given by the evaluation of its value leaves variables alone if the evaluation does.
-/
theorem Behaviour.ofValue_frames {value : Evaluation} (frames : value.Frames) :
    (ofValue span value).Frames where
  value := frames
  decide memory := (frames memory).bind (fun _ => id) fun _ same => .pure same

/-- A behaviour given by its decision leaves variables alone if the decision does. -/
theorem Behaviour.ofDecision_frames {decide : Evaluation} (frames : decide.Frames) :
    (ofDecision span decide).Frames where
  value memory := (frames memory).bind (fun _ => id) fun _ same => .pure same
  decide := frames

namespace Evaluation.Frames

variable {operand left right condition whenTrue whenFalse : Behaviour}

theorem literalDecision (value : Literal) : Frames (Behaviour.literalDecision value) := by
  intro memory
  cases value with
  | bool holds => exact .pure rfl
  | _ => exact .pure rfl

theorem cast (frames : operand.Frames) (ty? : Option Ty) : Frames (operand.cast ty?) := by
  intro memory
  refine (frames.value memory).bind (fun _ => id) fun answer same => ?_
  split
  · exact .throw trivial
  · exact .pure same

/-- Dereferencing the receiver of a call writes no variable. -/
theorem receive {receiver? : Option Behaviour} (frames : ∀ receiver ∈ receiver?, receiver.Frames)
    (memory : Memory) : Concludes (Behaviour.receive receiver? memory) (fun _ => True)
      fun later => later.isNull = memory.isNull := by
  cases receiver? with
  | none => exact .pure rfl
  | some receiver =>
      refine ((frames receiver rfl).value memory).bind (fun _ => id) fun answer same => ?_
      split
      · exact .throw trivial
      · exact .pure same

/-- Evaluating arguments in a row writes no variable if none of them does. -/
theorem each {arguments : List Behaviour} (frames : ∀ argument ∈ arguments, argument.Frames)
    (memory : Memory) : Concludes (Behaviour.each arguments memory) (fun _ => True)
      fun later => later.isNull = memory.isNull := by
  induction arguments generalizing memory with
  | nil => exact .pure rfl
  | cons first rest ih =>
      refine ((frames first List.mem_cons_self).value memory).bind (fun _ => id)
        fun answer same => ?_
      rw [← same]
      exact ih (fun later member => frames later (List.mem_cons_of_mem _ member)) answer.2

/-- Choosing a value of a declared type writes no variable. -/
theorem declared (ty : Ty) (memory : Memory) : (memory.declared ty).2.isNull = memory.isNull := by
  rw [Memory.declared]
  split <;> rfl

/-- A call writes no variable of the caller, for it passes values. -/
theorem call {receiver? : Option Behaviour} {arguments : List Behaviour}
    (ofReceiver : ∀ receiver ∈ receiver?, receiver.Frames)
    (ofArguments : ∀ argument ∈ arguments, argument.Frames) (signature : Signature) :
    Frames (Behaviour.call receiver? arguments signature) := by
  intro memory
  refine (receive ofReceiver memory).bind (fun _ => id) fun middle same => ?_
  refine (each ofArguments middle).bind (fun _ => id) fun later sameLater => .pure ?_
  rw [declared, sameLater, same]

/-- A second evaluation that may follow the first one. -/
theorem either {first second : Evaluation} (frames : first.Frames) (more : second.Frames)
    (decision : Bool → Bool) : Frames fun memory => do
      let answer ← first memory
      if decision answer.1 then second answer.2 else return answer := by
  intro memory
  refine (frames memory).bind (fun _ => id) fun answer same => ?_
  split
  · rw [← same]
    exact more answer.2
  · exact .pure same

/-- Whichever arm a conditional takes, no variable is written if its parts write none. -/
theorem conditional (ofCondition : condition.Frames) (ofTrue : whenTrue.Frames)
    (ofFalse : whenFalse.Frames) : Frames (condition.conditional whenTrue whenFalse) := by
  intro memory
  refine (ofCondition.decide memory).bind (fun _ => id) fun answer same => ?_
  rw [← same]
  split
  · exact ofTrue.value answer.2
  · exact ofFalse.value answer.2

/-- A disjunction writes no variable if its operands write none. -/
theorem disjunction (ofLeft : left.Frames) (ofRight : right.Frames) :
    Frames (left.disjunction right) := by
  intro memory
  refine (ofLeft.decide memory).bind (fun _ => id) fun answer same => ?_
  split
  · exact .pure same
  · rw [← same]
    exact ofRight.decide answer.2

theorem compare (first second : Bool) (memory : Memory) :
    (Behaviour.compare first second memory).2.isNull = memory.isNull := by
  rw [Behaviour.compare]
  split <;> rfl

/-- A comparison writes no variable if its operands write none. -/
theorem equality (ofLeft : left.Frames) (ofRight : right.Frames) (negated : Bool) :
    Frames (left.equality right negated) := by
  intro memory
  refine (ofLeft.value memory).bind (fun _ => id) fun first same => ?_
  refine (ofRight.value first.2).bind (fun _ => id) fun second sameLater => .pure ?_
  rw [compare, sameLater, same]

theorem test (frames : operand.Frames) (pattern : Pattern) : Frames (operand.test pattern) := by
  intro memory
  refine (frames.value memory).bind (fun _ => id) fun answer same => ?_
  cases pattern with
  | null => exact .pure same
  | type ty =>
      dsimp only
      split
      · exact .pure same
      · exact .pure same

end Evaluation.Frames

/-- A plain expression other than an assignment changes no local if its parts change none. -/
theorem node_frames {node : Node Variable Expr Code} (plain : node.kind.isPlain = true)
    (noAssign : ∀ target value, node.kind ≠ .assign target value)
    (parts : ∀ child ∈ node.kind.children, child.behaviour.Frames) :
    (Expr.node node).behaviour.Frames := by
  obtain ⟨kind, ty?, span⟩ := node
  cases kind with
  | read source =>
      have frames : Evaluation.Frames fun memory => return (memory.isNull source.id, memory) :=
        fun _ => .pure rfl
      have whole : (Behaviour.ofValue span _).Frames := Behaviour.ofValue_frames frames
      exact ⟨frames, whole.decide⟩
  | literal value => exact ⟨fun _ => .pure rfl, .literalDecision value⟩
  | defaultValue => exact Behaviour.ofValue_frames fun _ => .pure rfl
  | cast operand =>
      have ofOperand := parts operand List.mem_cons_self
      exact Behaviour.ofValue_frames (.cast ofOperand ty?)
  | call receiver? method arguments =>
      obtain ⟨ofReceiver, ofArguments⟩ := List.forall_mem_append.mp parts
      refine Behaviour.ofValue_frames (.call ?_ ?_ method)
      · intro receiver member
        cases receiver? with
        | none => cases member
        | some expr =>
            obtain rfl : _ = receiver := Option.some.inj member
            exact ofReceiver expr List.mem_cons_self
      · rw [delayArguments_eq_map]
        intro argument member
        obtain ⟨_, inArguments, rfl⟩ := List.mem_map.mp member
        obtain ⟨source, isArgument, rfl⟩ := List.mem_map.mp inArguments
        exact ofArguments source.value (List.mem_map_of_mem isArgument)
  | create constructor? arguments initializers =>
      obtain ⟨rfl, rfl⟩ := ExprKind.of_plain_create plain
      exact Behaviour.ofValue_frames fun _ => .pure rfl
  | conditional condition whenTrue whenFalse =>
      obtain ⟨ofCondition, rest⟩ := List.forall_mem_cons.mp parts
      obtain ⟨ofTrue, rest⟩ := List.forall_mem_cons.mp rest
      exact Behaviour.ofValue_frames
        (.conditional ofCondition ofTrue (List.forall_mem_cons.mp rest).1)
  | coalesce left right =>
      obtain ⟨ofLeft, rest⟩ := List.forall_mem_cons.mp parts
      exact Behaviour.ofValue_frames (.either ofLeft.value (List.forall_mem_cons.mp rest).1.value id)
  | binary operator left right =>
      obtain ⟨ofLeft, rest⟩ := List.forall_mem_cons.mp parts
      have ofRight := (List.forall_mem_cons.mp rest).1
      cases operator with
      | equal => exact Behaviour.ofDecision_frames (.equality ofLeft ofRight false)
      | notEqual => exact Behaviour.ofDecision_frames (.equality ofLeft ofRight true)
      | and => exact Behaviour.ofDecision_frames (.either ofLeft.decide ofRight.decide id)
      | or => exact Behaviour.ofDecision_frames (.disjunction ofLeft ofRight)
      | other => cases plain
  | unary operator operand =>
      have ofOperand := parts operand List.mem_cons_self
      cases operator with
      | not =>
          exact Behaviour.ofDecision_frames fun memory =>
            (ofOperand.decide memory).bind (fun _ => id) fun _ same => .pure same
      | other => cases plain
  | test operand pattern =>
      have ofOperand := parts operand List.mem_cons_self
      exact Behaviour.ofDecision_frames (.test ofOperand pattern)
  | assign target value => exact absurd rfl (noAssign target value)
  | _ => cases plain

end NullFlow
