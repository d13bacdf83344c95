import Mathlib.Data.List.Forall2
import NullFlow.Body.Tree
/-!
Shapes. The shape of a node is the node without the numbers of its parts. The tree of a node depends
on its shape and on the trees of its parts, and on nothing else.
-/

namespace NullFlow

/-- The first answer is also the second one. -/
def Persists {Result : Type} (first second : Option Result) : Prop :=
  ∀ result, first = some result → second = some result

section Persists

variable {Item Other Result More : Type} {step : Item → Option Result} {next : Other → Option Result}

/-- What one function answers for an item, the other one answers for another item. -/
def Carries (step : Item → Option Result) (next : Other → Option Result) (item : Item)
    (other : Other) : Prop := Persists (step item) (next other)

theorem Persists.refl (answer : Option Result) : Persists answer answer := fun _ same => same

/-- An answer in two steps persists if each step does. -/
theorem Persists.bind {first second : Option Item} {body other : Item → Option Result}
    (early : Persists first second) (late : ∀ item, Persists (body item) (other item)) :
    Persists (first >>= body) (second >>= other) := by
  intro result found
  obtain ⟨item, isItem, isResult⟩ := Option.bind_eq_some_iff.mp found
  exact Option.bind_eq_some_iff.mpr ⟨item, early item isItem, late item result isResult⟩

/-- The answers of a list persist if each one does. -/
theorem Persists.mapM {items : List Item} {others : List Other}
    (pairs : List.Forall₂ (Carries step next) items others) :
    Persists (items.mapM step) (others.mapM next) := by
  induction pairs with
  | nil => exact .refl _
  | cons first _ ih =>
      rw [List.mapM_cons, List.mapM_cons]
      exact first.bind fun _ => ih.bind fun _ => .refl _

/-- Items with the same results have their results in pairs. -/
theorem forall₂_of_mapM {items : List Item} {others : List Other} {results : List Result}
    (ofItems : items.mapM step = some results) (ofOthers : others.mapM next = some results) :
    List.Forall₂ (fun item other => ∃ result, step item = some result ∧ next other = some result)
      items others := by
  induction items generalizing others results with
  | nil =>
      obtain rfl : [] = results := Option.some.inj ofItems
      cases others with
      | nil => exact .nil
      | cons other rest =>
          rw [List.mapM_cons] at ofOthers
          obtain ⟨first, -, more⟩ := Option.bind_eq_some_iff.mp ofOthers
          obtain ⟨found, -, same⟩ := Option.bind_eq_some_iff.mp more
          cases same
  | cons item rest ih =>
      rw [List.mapM_cons] at ofItems
      obtain ⟨first, isFirst, more⟩ := Option.bind_eq_some_iff.mp ofItems
      obtain ⟨found, areFound, same⟩ := Option.bind_eq_some_iff.mp more
      obtain rfl : first :: found = results := Option.some.inj same
      cases others with
      | nil => cases ofOthers
      | cons other others =>
          rw [List.mapM_cons] at ofOthers
          obtain ⟨second, isSecond, more⟩ := Option.bind_eq_some_iff.mp ofOthers
          obtain ⟨foundToo, areFoundToo, same⟩ := Option.bind_eq_some_iff.mp more
          obtain ⟨rfl, rfl⟩ := List.cons.inj (Option.some.inj same)
          exact .cons ⟨second, isFirst, isSecond⟩ (ih areFound areFoundToo)

theorem Persists.resolveOption {item? : Option Item} {other? : Option Other}
    (pairs : List.Forall₂ (Carries step next) item?.toList other?.toList) :
    Persists (resolveOption step item?) (resolveOption next other?) := by
  cases item? with
  | none =>
      cases other? with
      | none => exact .refl _
      | some other => cases pairs
  | some item =>
      cases other? with
      | none => cases pairs
      | some other =>
          obtain ⟨first, -⟩ := List.forall₂_cons.mp pairs
          intro result found
          obtain ⟨inner, isInner, rfl⟩ := Option.map_eq_some_iff.mp found
          exact Option.map_eq_some_iff.mpr ⟨inner, first inner isInner, rfl⟩

end Persists

section Split

variable {First Second : Type} {related : First → Second → Prop}

/-- Related lists that are put together from parts of the same lengths have related parts. -/
theorem forall₂_split {left right : List First} {other another : List Second}
    (pairs : List.Forall₂ related (left ++ right) (other ++ another))
    (lengths : left.length = other.length) :
    List.Forall₂ related left other ∧ List.Forall₂ related right another := by
  induction left generalizing other with
  | nil =>
      obtain rfl := List.length_eq_zero_iff.mp lengths.symm
      exact ⟨.nil, pairs⟩
  | cons head rest ih =>
      cases other with
      | nil => cases lengths
      | cons first others =>
          obtain ⟨heads, tails⟩ := List.forall₂_cons.mp pairs
          obtain ⟨early, late⟩ := ih tails (Nat.succ.inj lengths)
          exact ⟨.cons heads early, late⟩

end Split

section Bare

variable {Var Child Code : Type}

def Argument.bare (argument : Argument Child) : Argument Unit := ⟨(), argument.name?⟩

mutual

def Initializer.bare : Initializer Child → Initializer Unit
  | .value member _ => .value member ()
  | .nested member entries => .nested member (bareInitializers entries)

def bareInitializers : List (Initializer Child) → List (Initializer Unit)
  | [] => []
  | entry :: rest => entry.bare :: bareInitializers rest

end

def LambdaBody.bare : LambdaBody Child Code → LambdaBody Unit Unit
  | .expr _ => .expr ()
  | .block _ => .block ()

/-- The kind of an expression without its parts. -/
def ExprKind.bare : ExprKind Var Child Code → ExprKind Var Unit Unit
  | .read source => .read source
  | .this => .this
  | .literal value => .literal value
  | .defaultValue => .defaultValue
  | .cast _ => .cast ()
  | .member receiver? selected => .member (receiver?.map fun _ => ()) selected
  | .index _ _ => .index () ()
  | .call receiver? method arguments =>
      .call (receiver?.map fun _ => ()) method (arguments.map Argument.bare)
  | .create constructor? arguments initializers =>
      .create constructor? (arguments.map Argument.bare) (bareInitializers initializers)
  | .array element? items => .array element? (items.map fun _ => ())
  | .conditional _ _ _ => .conditional () () ()
  | .coalesce _ _ => .coalesce () ()
  | .binary operator _ _ => .binary operator () ()
  | .unary operator _ => .unary operator ()
  | .test _ pattern => .test () pattern
  | .suppress _ => .suppress ()
  | .assign _ _ => .assign () ()
  | .lambda parameters body => .lambda parameters body.bare
  | .bad children => .bad (children.map fun _ => ())

/-- The expression without its parts. -/
def Node.bare (node : Node Var Child Code) : Node Var Unit Unit :=
  ⟨node.kind.bare, node.ty?, node.span⟩

def Arm.bare (arm : Arm StmtId) : Arm StmtId := ⟨arm.pattern?, arm.body.map fun _ => 0⟩

/-- The kind of a statement with zero for the numbers of its parts. -/
def StmtKind.bare : StmtKind → StmtKind
  | .block stmts => .block (stmts.map fun _ => 0)
  | .declare target value? => .declare target (value?.map fun _ => 0)
  | .evaluate _ => .evaluate 0
  | .ifElse _ _ elseBranch? => .ifElse 0 0 (elseBranch?.map fun _ => 0)
  | .whileLoop _ _ => .whileLoop 0 0
  | .doWhile _ _ => .doWhile 0 0
  | .forLoop init condition? updates _ =>
      .forLoop (init.map fun _ => 0) (condition?.map fun _ => 0) (updates.map fun _ => 0) 0
  | .switch _ arms => .switch 0 (arms.map Arm.bare)
  | .breakOut => .breakOut
  | .continueLoop => .continueLoop
  | .returnValue value? => .returnValue (value?.map fun _ => 0)
  | .throwValue value? => .throwValue (value?.map fun _ => 0)
  | .empty => .empty

/-- The statement without its parts. -/
def Statement.bare (stmt : Statement) : Statement := ⟨stmt.kind.bare, stmt.span⟩

mutual

theorem values_bare : ∀ entry : Initializer Child, entry.bare.values.length = entry.values.length
  | .value _ _ => rfl
  | .nested _ entries => initializerValues_bare entries

theorem initializerValues_bare : ∀ entries : List (Initializer Child),
    (initializerValues (bareInitializers entries)).length = (initializerValues entries).length
  | [] => rfl
  | entry :: rest => by
      simp only [bareInitializers, initializerValues, List.length_append, values_bare entry,
        initializerValues_bare rest]

end

/-- An expression has as many parts as its shape. -/
theorem ExprKind.children_bare (kind : ExprKind Var Child Code) :
    kind.bare.children.length = kind.children.length := by
  cases kind with
  | member receiver? member => cases receiver? <;> rfl
  | call receiver? method arguments => cases receiver? <;> simp [bare, children]
  | create constructor? arguments initializers =>
      simp [bare, children, initializerValues_bare]
  | array element? items => simp [bare, children]
  | bad children' => simp [bare, children]
  | _ => rfl

/-- A statement has as many parts as its shape. -/
theorem StmtKind.childStmts_bare (kind : StmtKind) :
    kind.bare.childStmts.length = kind.childStmts.length := by
  cases kind with
  | block stmts => simp [bare, childStmts]
  | ifElse condition thenBranch elseBranch? => cases elseBranch? <;> rfl
  | forLoop init condition? updates body => simp [bare, childStmts]
  | switch scrutinee arms =>
      simp [bare, childStmts, List.length_flatMap, Arm.bare, Function.comp_def]
  | _ => rfl

end Bare

section Resolve

variable {Var Child Block Other OtherBlock Var' Part Code : Type} {var : Var → Option Var'}
  {child : Child → Option Part} {block : Block → Option Code} {next : Other → Option Part}
  {otherBlock : OtherBlock → Option Code}

/-- Resolved arguments persist if their values do. -/
theorem Persists.arguments {arguments : List (Argument Child)} {others : List (Argument Other)}
    (same : arguments.map Argument.bare = others.map Argument.bare)
    (parts : List.Forall₂ (Carries child next) (arguments.map Argument.value)
      (others.map Argument.value)) :
    Persists (arguments.mapM (Argument.resolve child)) (others.mapM (Argument.resolve next)) := by
  apply Persists.mapM
  induction arguments generalizing others with
  | nil =>
      obtain rfl := List.map_eq_nil_iff.mp same.symm
      exact .nil
  | cons argument rest ih =>
      cases others with
      | nil => cases same
      | cons other others =>
          obtain ⟨sameName, sameRest⟩ := List.cons.inj same
          obtain ⟨first, more⟩ := List.forall₂_cons.mp parts
          obtain ⟨value, name?⟩ := argument
          obtain ⟨otherValue, otherName?⟩ := other
          obtain rfl : name? = otherName? := congrArg Argument.name? sameName
          exact .cons (first.bind fun _ => .refl _) (ih sameRest more)

mutual

/-- A resolved initializer persists if its values do. -/
theorem Persists.initializer : ∀ {entry : Initializer Child} {other : Initializer Other},
    entry.bare = other.bare → List.Forall₂ (Carries child next) entry.values other.values →
    Persists (entry.resolve child) (other.resolve next)
  | .value member value, .value otherMember otherValue, same, parts => by
      obtain rfl : member = otherMember := (Initializer.value.inj same).1
      obtain ⟨first, -⟩ := List.forall₂_cons.mp parts
      exact first.bind fun _ => .refl _
  | .nested member entries, .nested otherMember others, same, parts => by
      obtain ⟨rfl, sameEntries⟩ := Initializer.nested.inj same
      exact (Persists.initializers sameEntries parts).bind fun _ => .refl _

theorem Persists.initializers : ∀ {entries : List (Initializer Child)}
    {others : List (Initializer Other)}, bareInitializers entries = bareInitializers others →
    List.Forall₂ (Carries child next) (initializerValues entries) (initializerValues others) →
    Persists (resolveInitializers child entries) (resolveInitializers next others)
  | [], [], _, _ => .refl _
  | entry :: rest, other :: others, same, parts => by
      obtain ⟨sameEntry, sameRest⟩ := List.cons.inj same
      have lengths : entry.values.length = other.values.length :=
        (values_bare entry).symm.trans
          ((congrArg (fun bare => bare.values.length) sameEntry).trans (values_bare other))
      obtain ⟨first, more⟩ := forall₂_split parts lengths
      exact (Persists.initializer sameEntry first).bind fun _ =>
        (Persists.initializers sameRest more).bind fun _ => .refl _

end

/-- Nodes of one shape have the same tree if their parts have the same trees. -/
theorem ExprKind.resolve_persists {kind : ExprKind Var Child Block}
    {other : ExprKind Var Other OtherBlock} (same : kind.bare = other.bare)
    (parts : List.Forall₂ (Carries child next) kind.children other.children)
    (bodies : ∀ parameters body others otherBody, kind = .lambda parameters body →
      other = .lambda others otherBody →
      Persists (body.resolve child block) (otherBody.resolve next otherBlock)) :
    Persists (kind.resolve var child block) (other.resolve var next otherBlock) := by
  cases kind with
  | read source => cases other with
      | read _ => cases same; exact .refl _
      | _ => cases same
  | this => cases other with
      | this => exact .refl _
      | _ => cases same
  | literal value => cases other with
      | literal _ => cases same; exact .refl _
      | _ => cases same
  | defaultValue => cases other with
      | defaultValue => exact .refl _
      | _ => cases same
  | cast operand => cases other with
      | cast _ =>
          obtain ⟨first, -⟩ := List.forall₂_cons.mp parts
          exact first.bind fun _ => .refl _
      | _ => cases same
  | member receiver? selected => cases other with
      | member _ _ =>
          obtain ⟨-, rfl⟩ := ExprKind.member.inj same
          exact (Persists.resolveOption parts).bind fun _ => .refl _
      | _ => cases same
  | index receiver position => cases other with
      | index _ _ =>
          obtain ⟨first, more⟩ := List.forall₂_cons.mp parts
          obtain ⟨second, -⟩ := List.forall₂_cons.mp more
          exact first.bind fun _ => second.bind fun _ => .refl _
      | _ => cases same
  | call receiver? method arguments => cases other with
      | call otherReceiver? _ _ =>
          obtain ⟨sameReceiver, rfl, sameArguments⟩ := ExprKind.call.inj same
          have lengths : receiver?.toList.length = otherReceiver?.toList.length := by
            cases receiver? <;> cases otherReceiver? <;> first | rfl | cases sameReceiver
          obtain ⟨first, more⟩ := forall₂_split parts lengths
          exact (Persists.resolveOption first).bind fun _ =>
            (Persists.arguments sameArguments more).bind fun _ => .refl _
      | _ => cases same
  | create constructor? arguments initializers => cases other with
      | create _ others _ =>
          obtain ⟨rfl, sameArguments, sameEntries⟩ := ExprKind.create.inj same
          have lengths : (arguments.map Argument.value).length =
              (others.map Argument.value).length := by
            simpa using congrArg List.length sameArguments
          obtain ⟨first, more⟩ := forall₂_split parts lengths
          exact (Persists.arguments sameArguments first).bind fun _ =>
            (Persists.initializers sameEntries more).bind fun _ => .refl _
      | _ => cases same
  | array element? items => cases other with
      | array _ _ =>
          obtain ⟨rfl, -⟩ := ExprKind.array.inj same
          exact (Persists.mapM parts).bind fun _ => .refl _
      | _ => cases same
  | conditional condition whenTrue whenFalse => cases other with
      | conditional _ _ _ =>
          obtain ⟨first, more⟩ := List.forall₂_cons.mp parts
          obtain ⟨second, more⟩ := List.forall₂_cons.mp more
          obtain ⟨third, -⟩ := List.forall₂_cons.mp more
          exact first.bind fun _ => second.bind fun _ => third.bind fun _ => .refl _
      | _ => cases same
  | coalesce left right => cases other with
      | coalesce _ _ =>
          obtain ⟨first, more⟩ := List.forall₂_cons.mp parts
          obtain ⟨second, -⟩ := List.forall₂_cons.mp more
          exact first.bind fun _ => second.bind fun _ => .refl _
      | _ => cases same
  | binary operator left right => cases other with
      | binary _ _ _ =>
          obtain ⟨rfl, -⟩ := ExprKind.binary.inj same
          obtain ⟨first, more⟩ := List.forall₂_cons.mp parts
          obtain ⟨second, -⟩ := List.forall₂_cons.mp more
          exact first.bind fun _ => second.bind fun _ => .refl _
      | _ => cases same
  | unary operator operand => cases other with
      | unary _ _ =>
          obtain ⟨rfl, -⟩ := ExprKind.unary.inj same
          obtain ⟨first, -⟩ := List.forall₂_cons.mp parts
          exact first.bind fun _ => .refl _
      | _ => cases same
  | test operand pattern => cases other with
      | test _ _ =>
          obtain ⟨-, rfl⟩ := ExprKind.test.inj same
          obtain ⟨first, -⟩ := List.forall₂_cons.mp parts
          exact first.bind fun _ => .refl _
      | _ => cases same
  | suppress operand => cases other with
      | suppress _ =>
          obtain ⟨first, -⟩ := List.forall₂_cons.mp parts
          exact first.bind fun _ => .refl _
      | _ => cases same
  | assign target value => cases other with
      | assign _ _ =>
          obtain ⟨first, more⟩ := List.forall₂_cons.mp parts
          obtain ⟨second, -⟩ := List.forall₂_cons.mp more
          exact first.bind fun _ => second.bind fun _ => .refl _
      | _ => cases same
  | lambda parameters body => cases other with
      | lambda _ _ =>
          obtain ⟨rfl, -⟩ := ExprKind.lambda.inj same
          exact (bodies _ _ _ _ rfl rfl).bind fun _ => .refl _
      | _ => cases same
  | bad children => cases other with
      | bad _ => exact (Persists.mapM parts).bind fun _ => .refl _
      | _ => cases same

end Resolve

section Tree

variable {Leaf Part : Type} {leaf? otherLeaf? : Option Leaf} {expr part : ExprId → Option Part}
  {child next : StmtId → Option (Stmt Leaf Part)}

/-- Arms of equal shape correspond one by one. -/
theorem forall₂_arms {arms others : List (Arm StmtId)}
    (same : arms.map Arm.bare = others.map Arm.bare)
    (parts : List.Forall₂ (Carries child next) (arms.flatMap Arm.body) (others.flatMap Arm.body)) :
    List.Forall₂ (fun arm other => arm.pattern? = other.pattern? ∧
      List.Forall₂ (Carries child next) arm.body other.body) arms others := by
  induction arms generalizing others with
  | nil =>
      obtain rfl := List.map_eq_nil_iff.mp same.symm
      exact .nil
  | cons arm rest ih =>
      cases others with
      | nil => cases same
      | cons other others =>
          obtain ⟨sameArm, sameRest⟩ := List.cons.inj same
          obtain ⟨samePattern, sameBody⟩ := Arm.mk.inj sameArm
          have lengths : arm.body.length = other.body.length := by
            simpa using congrArg List.length sameBody
          obtain ⟨first, more⟩ := forall₂_split parts lengths
          exact .cons ⟨samePattern, first⟩ (ih sameRest more)

/-- Statements of one shape have the same tree if their parts have the same trees. -/
theorem Statement.tree?_persists {stmt other : Statement} (same : stmt.bare = other.bare)
    (leaf : Persists leaf? otherLeaf?)
    (stmts : List.Forall₂ (Carries child next) stmt.kind.childStmts other.kind.childStmts)
    (exprs : List.Forall₂ (Carries expr part) stmt.kind.childExprs other.kind.childExprs) :
    Persists (stmt.tree? leaf? expr child) (other.tree? otherLeaf? part next) := by
  obtain ⟨kind, span⟩ := stmt
  obtain ⟨otherKind, otherSpan⟩ := other
  obtain ⟨sameKind, rfl⟩ : kind.bare = otherKind.bare ∧ span = otherSpan := Statement.mk.inj same
  cases kind with
  | block inner => cases otherKind with
      | block _ => exact (Persists.mapM stmts).bind fun _ => .refl _
      | _ => cases sameKind
  | declare target value? => cases otherKind with
      | declare _ _ => exact leaf.bind fun _ => .refl _
      | _ => cases sameKind
  | evaluate value => cases otherKind with
      | evaluate _ => exact leaf.bind fun _ => .refl _
      | _ => cases sameKind
  | ifElse condition thenBranch elseBranch? => cases otherKind with
      | ifElse _ _ otherBranch? =>
          obtain ⟨test, -⟩ := List.forall₂_cons.mp exprs
          obtain ⟨first, more⟩ := List.forall₂_cons.mp stmts
          cases elseBranch? with
          | none =>
              cases otherBranch? with
              | none => exact test.bind fun _ => first.bind fun _ => .refl _
              | some _ => cases more
          | some elseBranch =>
              cases otherBranch? with
              | none => cases more
              | some _ =>
                  obtain ⟨second, -⟩ := List.forall₂_cons.mp more
                  exact test.bind fun _ => first.bind fun _ => second.bind fun _ => .refl _
      | _ => cases sameKind
  | whileLoop condition loop => cases otherKind with
      | whileLoop _ _ =>
          obtain ⟨test, -⟩ := List.forall₂_cons.mp exprs
          obtain ⟨first, -⟩ := List.forall₂_cons.mp stmts
          exact test.bind fun _ => first.bind fun _ => .refl _
      | _ => cases sameKind
  | doWhile loop condition => cases otherKind with
      | doWhile _ _ =>
          obtain ⟨test, -⟩ := List.forall₂_cons.mp exprs
          obtain ⟨first, -⟩ := List.forall₂_cons.mp stmts
          exact first.bind fun _ => test.bind fun _ => .refl _
      | _ => cases sameKind
  | forLoop init condition? updates loop => cases otherKind with
      | forLoop otherInit otherCondition? _ _ =>
          obtain ⟨sameInit, sameCondition, -⟩ := StmtKind.forLoop.inj sameKind
          have initLengths : init.length = otherInit.length := by
            simpa using congrArg List.length sameInit
          have conditionLengths : condition?.toList.length = otherCondition?.toList.length := by
            cases condition? <;> cases otherCondition? <;> first | rfl | cases sameCondition
          obtain ⟨prepared, more⟩ := forall₂_split stmts initLengths
          obtain ⟨inner, -⟩ := List.forall₂_cons.mp more
          obtain ⟨test, steps⟩ := forall₂_split exprs conditionLengths
          exact (Persists.mapM prepared).bind fun _ => (Persists.resolveOption test).bind fun _ =>
            (Persists.mapM steps).bind fun _ => inner.bind fun _ => .refl _
      | _ => cases sameKind
  | switch scrutinee arms => cases otherKind with
      | switch _ _ =>
          obtain ⟨-, sameArms⟩ := StmtKind.switch.inj sameKind
          obtain ⟨value, -⟩ := List.forall₂_cons.mp exprs
          refine value.bind fun _ => (Persists.mapM ?_).bind fun _ => .refl _
          refine (forall₂_arms sameArms stmts).imp ?_
          rintro ⟨pattern?, body⟩ ⟨_, otherBody⟩ ⟨rfl, inner⟩
          exact (Persists.mapM inner).bind fun _ => .refl _
      | _ => cases sameKind
  | breakOut => cases otherKind with
      | breakOut => exact .refl _
      | _ => cases sameKind
  | continueLoop => cases otherKind with
      | continueLoop => exact .refl _
      | _ => cases sameKind
  | returnValue value? => cases otherKind with
      | returnValue _ => exact (Persists.resolveOption exprs).bind fun _ => .refl _
      | _ => cases sameKind
  | throwValue value? => cases otherKind with
      | throwValue _ => exact (Persists.resolveOption exprs).bind fun _ => .refl _
      | _ => cases sameKind
  | empty => cases otherKind with
      | empty => exact .refl _
      | _ => cases sameKind

end Tree

end NullFlow
