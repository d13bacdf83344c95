import NullFlow.Proofs.Analysis.Passes
import NullFlow.Proofs.Analysis.Rules.Calls
import NullFlow.Proofs.Analysis.Rules.Conditions
import NullFlow.Proofs.Analysis.Rules.Operations
import NullFlow.Proofs.Analysis.Rules.Values
import NullFlow.Proofs.Code.Induction
/-!
The meanings of flat code keep to the outlines of its expressions. So do the meanings in its graph
and in the graphs of its lambdas.
-/

namespace NullFlow.Comparison

variable {pair : Comparison} {context : Context} {lenient : Bool}

section Updates

variable {outline : Outline} {meaning : Meaning}

theorem Tracks.marked (tracks : pair.Tracks outline meaning) (isNull isConstant : Bool) :
    pair.Tracks outline { meaning with isNull, isConstant } :=
  ⟨tracks.flatType, tracks.value, tracks.unreached, tracks.branches, tracks.undecided,
    tracks.target, tracks.lambda⟩

theorem Tracks.withBranches (tracks : pair.Tracks outline meaning)
    {rule : Store → Analysis Branches} (track : pair.BranchesTrack rule) :
    pair.Tracks outline { meaning with branches := Meaning.guardBranches rule } :=
  ⟨tracks.flatType, tracks.value, tracks.unreached, track.guard, fun _ => rfl, tracks.target,
    tracks.lambda⟩

theorem Tracks.withTarget (tracks : pair.Tracks outline meaning)
    {target : Store → Analysis (Target × Store)}
    (track : outline.settled = true → pair.TargetTracks outline.tracked target) :
    pair.Tracks outline { meaning with target } :=
  ⟨tracks.flatType, tracks.value, tracks.unreached, tracks.branches, tracks.undecided, track,
    tracks.lambda⟩

/-- A member without a receiver lies at no place. -/
theorem noTarget_tracks (declared? : Option Ty) : pair.TargetTracks false fun store =>
    return (⟨none, declared?, false, false⟩, store) := by
  intro first second one two related
  have fits : ∀ {table : SlotTable} {store : Store}, store.Within table →
      Store.Places false table none store := fun within => ⟨by simp, within, by simp⟩
  exact .pure (related.with (fits related.fitsFirst) (fits related.fitsSecond) fun known =>
    ⟨rfl, rfl, related.alike known⟩)

end Updates

section Lambdas

variable {graph : Thunk MeaningGraph} {flat settled : Bool} {span : Span} {ty? : Option Ty}

/-- Wherever a lambda is evaluated, its body touches nothing but the slot table. -/
theorem lambda_tracks (flatType : ty?.all Ty.isFlat = true) (tracking : pair.Tracking graph.get)
    (sameStop : context.token.stops = pair.stopRequested) (target : SlotTable) :
    (pair.toward target).Tracks ⟨flat, false, settled⟩
      (lambdaMeaning context span ty? graph) := by
  have alone : ∀ (delegate? : Option Ty) {session : Session}, pair.layout.Fits session.slots →
      (pair.toward target).Alone .any session (graph.get.analyzeLambda context delegate?) := by
    intro delegate? session fits
    have trackingToward : (pair.toward target).Tracking graph.get := tracking
    exact analyzeLambda_alone trackingToward sameStop delegate? fits
  have value : (pair.toward target).ValueTracks false fun store => do
      let _ ← graph.get.analyzeLambda context ty?
      return (.loose .notNull ty?, store) := by
    intro first second one two related
    have analyzed : (pair.toward target).Runs .any first second
        (graph.get.analyzeLambda context ty?) (graph.get.analyzeLambda context ty?) :=
      ⟨alone ty? related.layoutFirst, alone ty? related.layoutSecond, fun _ => trivial⟩
    refine analyzed.bind related.reached fun growsFirst growsSecond _ => ?_
    have stores := related.grow growsFirst growsSecond
    exact .pure (stores.loose (stores.states _) flatType flatType fun _ => rfl)
  have plain : (pair.toward target).Tracks ⟨flat, false, settled⟩ (Meaning.ofValue span ty? _) :=
    tracks_ofValue flatType value
  exact ⟨plain.flatType, plain.value, plain.unreached, plain.branches, plain.undecided, plain.target,
    fun analyze same delegate? session fits => Option.some.inj same ▸ alone delegate? fits⟩

end Lambdas

section Expressions

/-- If the expression is flat, its meaning keeps to its outline whatever it is compared with. -/
def MeaningTracks (pair : Comparison) (context : Context) (lenient : Bool) (expr : Expr) : Prop :=
  (expr.outline pair.layout lenient).flat = true → ∀ target,
    (pair.toward target).Tracks (expr.outline pair.layout lenient) (expr.meaning context)

variable (target : SlotTable)

theorem delayAll_track {exprs : List Expr}
    (each : ∀ expr ∈ exprs, MeaningTracks pair context lenient expr)
    (flat : (delayAll (Outline.ofNode pair.layout lenient) exprs).all
      (fun part => part.get.flat) = true) :
    AllTrack (pair.toward target) (delayAll (Meaning.ofNode context) exprs) := by
  rw [delayAll_eq_map] at flat ⊢
  intro part member
  obtain ⟨expr, inExprs, rfl⟩ := List.mem_map.mp member
  exact ⟨_, each expr inExprs (List.all_eq_true.mp flat _ (List.mem_map_of_mem inExprs)) target⟩

theorem delayArguments_track {arguments : List (Argument Expr)}
    (each : ∀ expr ∈ arguments.map Argument.value, MeaningTracks pair context lenient expr)
    (flat : Outline.flatArguments
      (delayArguments (Outline.ofNode pair.layout lenient) arguments) = true) :
    ArgumentsTrack (pair.toward target) (delayArguments (Meaning.ofNode context) arguments) := by
  rw [Outline.flatArguments, delayArguments_eq_map] at flat
  rw [delayArguments_eq_map]
  intro part member
  obtain ⟨argument, inArguments, rfl⟩ := List.mem_map.mp member
  have flatValue := List.all_eq_true.mp flat _ (List.mem_map_of_mem inArguments)
  exact ⟨_, each _ (List.mem_map_of_mem inArguments) flatValue target⟩

mutual

theorem delayInitializer_tracks : ∀ {entry : Initializer Expr},
    (∀ expr ∈ entry.values, MeaningTracks pair context lenient expr) →
    Outline.flatInitializer pair.layout
      (delayInitializer (Outline.ofNode pair.layout lenient) entry) = true →
    InitializerTracks (pair.toward target) (delayInitializer (Meaning.ofNode context) entry)
  | .value member value, each, flat => by
      obtain ⟨covered, flatValue⟩ := Bool.and_eq_true_iff.mp flat
      exact ⟨covered, _, each value List.mem_cons_self flatValue target⟩
  | .nested member entries, each, flat => by
      obtain ⟨covered, flatEntries⟩ := Bool.and_eq_true_iff.mp flat
      exact ⟨covered, delayInitializers_track each flatEntries⟩

theorem delayInitializers_track : ∀ {entries : List (Initializer Expr)},
    (∀ expr ∈ initializerValues entries, MeaningTracks pair context lenient expr) →
    Outline.flatInitializers pair.layout
      (delayInitializers (Outline.ofNode pair.layout lenient) entries) = true →
    InitializersTrack (pair.toward target) (delayInitializers (Meaning.ofNode context) entries)
  | [], _, _ => trivial
  | entry :: rest, each, flat => by
      obtain ⟨flatEntry, flatRest⟩ := Bool.and_eq_true_iff.mp flat
      have inEntry := fun expr member => each expr (List.mem_append_left _ member)
      have inRest := fun expr member => each expr (List.mem_append_right _ member)
      exact ⟨delayInitializer_tracks inEntry flatEntry, delayInitializers_track inRest flatRest⟩

end

/-- The graph of flat code holds meanings that keep to outlines. -/
theorem tracking_ofStmt {code : Code} (flat : code.isFlat pair.layout lenient = true)
    (each : ∀ expr ∈ code.allExprs, MeaningTracks pair context lenient expr) :
    pair.Tracking (FlowGraph.ofStmt (foldStmt (Meaning.ofNode context) code)) := by
  obtain ⟨covered, flatExprs⟩ := Bool.and_eq_true_iff.mp flat
  rw [leaves_foldStmt, List.all_eq_true] at covered
  rw [allExprs_foldStmt, List.all_eq_true] at flatExprs
  have tracked : ∀ target, ∀ expr ∈ code.allExprs,
      (pair.toward target).Tracked (expr.meaning context) := by
    intro target expr member
    exact ⟨_, each expr member (flatExprs _ (List.mem_map_of_mem member)) target⟩
  intro target
  refine FlowGraph.ofStmt_over (fun leaf member => ?_) fun meaning member => ?_
  · rw [leaves_foldStmt] at member
    obtain ⟨simple, inCode, rfl⟩ := List.mem_map.mp member
    have inExprs : ∀ expr ∈ simple.exprs, expr ∈ code.allExprs := fun expr inSimple =>
      List.mem_append_left _ (List.mem_flatMap.mpr ⟨simple, inCode, inSimple⟩)
    cases simple with
    | evaluate expr => exact tracked target expr (inExprs expr List.mem_cons_self)
    | declare target' value? =>
        refine ⟨covered _ (List.mem_map_of_mem inCode), fun meaning declared => ?_⟩
        cases value? with
        | none => cases declared
        | some expr =>
            obtain rfl : _ = meaning := Option.some.inj declared
            exact tracked target expr (inExprs expr List.mem_cons_self)
  · rw [exprs_foldStmt] at member
    obtain ⟨expr, inCode, rfl⟩ := List.mem_map.mp member
    exact tracked target expr (List.mem_append_right _ inCode)

/-- The graph of a lambda that only yields a value. -/
theorem tracking_ofValue {value : Meaning} (span : Span)
    (tracked : ∀ target, (pair.toward target).Tracked value) :
    pair.Tracking (FlowGraph.ofValue value span) := by
  intro target block member
  obtain rfl := Array.mem_singleton.mp member
  refine ⟨by simp, fun meaning inside => ?_⟩
  obtain rfl := List.mem_singleton.mp inside
  exact tracked target

section Nodes

variable (flatThis : context.thisType?.all Ty.isFlat = true)
  (sameStop : context.token.stops = pair.stopRequested)
  (upper : lenient = true → pair.bound = .upper)
include flatThis sameStop upper

/-- The meaning of a node, if the meanings of its parts keep to their outlines. -/
theorem node_tracks (node : Node Variable Expr Code)
    (children : ∀ child ∈ node.kind.children, MeaningTracks pair context lenient child)
    (bodies : ∀ inner ∈ node.kind.bodyExprs, MeaningTracks pair context lenient inner) :
    MeaningTracks pair context lenient (.node node) := by
  obtain ⟨kind, ty?, span⟩ := node
  intro flat target
  obtain ⟨flatType, flatKind⟩ := Bool.and_eq_true_iff.mp flat
  change ty?.all Ty.isFlat = true at flatType
  change Outline.flatKind (pair.toward target).layout
    (foldKind (Outline.ofNode pair.layout lenient) kind) = true at flatKind
  cases kind with
  | read source =>
      have covered : (pair.toward target).layout.coversVariable source = true := flatKind
      exact (tracks_ofValue flatType (readRule_tracks covered)).withTarget fun _ =>
        variableTarget_tracks covered
  | this => exact tracks_ofValue flatType (thisRule_tracks flatThis flatType)
  | literal value =>
      exact ((tracks_ofValue flatType (literal_tracks flatType)).withBranches
        (literalBranches_track value)).marked _ _
  | defaultValue =>
      exact tracks_ofValue flatType (constant_tracks (by simpa using flatType))
  | cast operand =>
      have ofOperand := children operand List.mem_cons_self flatKind target
      exact (tracks_ofValue flatType (castRule_tracks flatType ofOperand)).marked _ _
  | member receiver? member =>
      cases receiver? with
      | none =>
          have flatMember : (some member.ty).all Ty.isFlat = true := flatKind
          exact (tracks_ofValue flatType (constant_tracks flatMember)).withTarget fun _ =>
            noTarget_tracks _
      | some receiver =>
          obtain ⟨flatReceiver, covered⟩ := Bool.and_eq_true_iff.mp flatKind
          have ofReceiver := children receiver List.mem_cons_self flatReceiver target
          refine (tracks_ofValue flatType (memberRule_tracks covered ofReceiver)).withTarget ?_
          intro settled
          have oneSlot : (receiver.outline pair.layout lenient).tracked = true ∨
              pair.bound = .upper := by
            rcases Bool.or_eq_true_iff.mp settled with isLenient | tracked
            · exact Or.inr (upper isLenient)
            · exact Or.inl tracked
          have ofTarget : (pair.toward target).TargetTracks
              (receiver.outline pair.layout lenient).tracked
              (memberTarget context (.mk fun _ => receiver.meaning context) member) :=
            memberTarget_tracks covered ofReceiver oneSlot
          exact ofTarget
  | index receiver position =>
      obtain ⟨flatReceiver, flatPosition⟩ := Bool.and_eq_true_iff.mp flatKind
      have ofReceiver := children receiver List.mem_cons_self flatReceiver target
      have ofPosition := children position (by simp [ExprKind.children]) flatPosition target
      exact (tracks_ofValue flatType (indexRule_tracks flatType ofReceiver ofPosition)).withTarget
        fun _ => indexTarget_tracks ofReceiver ofPosition
  | call receiver? method arguments =>
      obtain ⟨flatOthers, closed⟩ := Bool.and_eq_true_iff.mp flatKind
      obtain ⟨flatOthers, flatReturn⟩ := Bool.and_eq_true_iff.mp flatOthers
      obtain ⟨flatReceiver, flatArguments⟩ := Bool.and_eq_true_iff.mp flatOthers
      have ofArguments := delayArguments_track target (fun expr member =>
        children expr (List.mem_append_right _ member)) flatArguments
      refine tracks_ofValue flatType (callRule_tracks flatType flatReturn closed ?_ ofArguments)
      intro receiver isReceiver
      cases receiver? with
      | none => cases isReceiver
      | some receiver' =>
          obtain rfl : _ = receiver := Option.some.inj isReceiver
          exact ⟨_, children receiver' (by simp [ExprKind.children]) flatReceiver target⟩
  | create constructor? arguments initializers =>
      obtain ⟨flatArguments, flatInitializers⟩ := Bool.and_eq_true_iff.mp flatKind
      have ofArguments := delayArguments_track target (fun expr member =>
        children expr (List.mem_append_left _ member)) flatArguments
      have ofInitializers := delayInitializers_track target (fun expr member =>
        children expr (List.mem_append_right _ member)) flatInitializers
      exact tracks_ofValue flatType (createRule_tracks flatType ofArguments ofInitializers)
  | array element? items => cases flatKind
  | conditional condition whenTrue whenFalse =>
      obtain ⟨flatOthers, flatFalse⟩ := Bool.and_eq_true_iff.mp flatKind
      obtain ⟨flatCondition, flatTrue⟩ := Bool.and_eq_true_iff.mp flatOthers
      exact tracks_ofValue flatType (conditionalRule_tracks flatType
        (children condition (by simp [ExprKind.children]) flatCondition target)
        (children whenTrue (by simp [ExprKind.children]) flatTrue target)
        (children whenFalse (by simp [ExprKind.children]) flatFalse target))
  | coalesce left right =>
      obtain ⟨flatLeft, flatRight⟩ := Bool.and_eq_true_iff.mp flatKind
      exact tracks_ofValue flatType (coalesceRule_tracks
        (children left (by simp [ExprKind.children]) flatLeft target)
        (children right (by simp [ExprKind.children]) flatRight target))
  | binary operator left right =>
      obtain ⟨flatLeft, flatRight⟩ := Bool.and_eq_true_iff.mp flatKind
      have ofLeft := children left (by simp [ExprKind.children]) flatLeft target
      have ofRight := children right (by simp [ExprKind.children]) flatRight target
      cases operator with
      | equal => exact tracks_ofBranches flatType (equalityRule_track false ofLeft ofRight)
      | notEqual => exact tracks_ofBranches flatType (equalityRule_track true ofLeft ofRight)
      | and => exact tracks_ofBranches flatType (andRule_track ofLeft ofRight)
      | or => exact tracks_ofBranches flatType (orRule_track ofLeft ofRight)
      | other =>
          refine tracks_ofValue flatType (operationRule_tracks flatType fun part member => ?_)
          rcases List.mem_pair.mp member with rfl | rfl
          · exact ⟨_, ofLeft⟩
          · exact ⟨_, ofRight⟩
  | unary operator operand =>
      have ofOperand := children operand List.mem_cons_self flatKind target
      cases operator with
      | not => exact tracks_ofBranches flatType (notRule_track ofOperand)
      | other =>
          refine tracks_ofValue flatType (operationRule_tracks flatType fun part member => ?_)
          obtain rfl := List.mem_singleton.mp member
          exact ⟨_, ofOperand⟩
  | test operand pattern =>
      have ofOperand := children operand List.mem_cons_self flatKind target
      exact tracks_ofBranches flatType (testRule_track pattern ofOperand)
  | suppress operand =>
      have ofOperand := children operand List.mem_cons_self flatKind target
      exact tracks_ofValue flatType (suppressRule_tracks ofOperand)
  | assign place value =>
      obtain ⟨flatPlace, flatValue⟩ := Bool.and_eq_true_iff.mp flatKind
      obtain ⟨flatPlace, settled⟩ := Bool.and_eq_true_iff.mp flatPlace
      have ofPlace := children place (by simp [ExprKind.children]) flatPlace target
      have ofValue := children value (by simp [ExprKind.children]) flatValue target
      exact tracks_ofValue flatType (assignRule_tracks ofPlace settled ofValue)
  | lambda parameters body =>
      cases body with
      | expr value =>
          have ofValue := bodies value List.mem_cons_self flatKind
          exact lambda_tracks flatType (tracking_ofValue _ fun target => ⟨_, ofValue target⟩)
            sameStop target
      | block code =>
          exact lambda_tracks flatType (tracking_ofStmt flatKind bodies) sameStop target
  | bad children' =>
      have ofChildren := delayAll_track target children flatKind
      exact tracks_ofValue flatType (badRule_tracks ofChildren)

/-- The meaning of a flat expression keeps to its outline. -/
theorem meaning_tracks (expr : Expr) : MeaningTracks pair context lenient expr :=
  Expr.fromParts (node_tracks flatThis sameStop upper) expr

/-- The graph of flat code holds meanings that keep to outlines. -/
theorem graph_tracking {code : Code} (flat : code.isFlat pair.layout lenient = true) :
    pair.Tracking (code.graph context) :=
  tracking_ofStmt flat fun expr _ => meaning_tracks flatThis sameStop upper expr

end Nodes

end Expressions

end NullFlow.Comparison
