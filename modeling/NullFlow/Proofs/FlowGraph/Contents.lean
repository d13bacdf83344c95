import NullFlow.FlowGraph.Lowering
import NullFlow.Proofs.Code.Contents
/-!
The contents of graphs. The blocks of a lowered statement tree contain the simple statements and
the expressions of the tree and no others.
-/

namespace NullFlow

variable {Leaf Expr : Type}

/-- A step consists of statements and expressions of the kinds. -/
def Step.Over (ofLeaf : Leaf → Prop) (ofExpr : Expr → Prop) : Step Leaf Expr → Prop
  | .simple leaf => ofLeaf leaf
  | .update expr => ofExpr expr

def Terminator.exprs : Terminator Expr → List Expr
  | .goto _ => []
  | .branch condition _ _ => [condition]
  | .switch scrutinee _ => [scrutinee]
  | .returnValue value? _ => value?.toList
  | .throwValue value? => value?.toList
  | .exit => []

/-- A block consists of statements and expressions of the kinds. -/
structure Block.Over (ofLeaf : Leaf → Prop) (ofExpr : Expr → Prop) (block : Block Leaf Expr) :
    Prop where
  steps : ∀ step ∈ block.steps, step.Over ofLeaf ofExpr
  terminator : ∀ expr ∈ block.terminator.exprs, ofExpr expr

/-- All blocks of a graph consist of statements and expressions of the kinds. -/
def FlowGraph.Over (ofLeaf : Leaf → Prop) (ofExpr : Expr → Prop) (graph : FlowGraph Leaf Expr) :
    Prop := ∀ block ∈ graph.blocks, block.Over ofLeaf ofExpr

/-- All blocks of a draft consist of statements and expressions of the kinds. -/
def Draft.Over (ofLeaf : Leaf → Prop) (ofExpr : Expr → Prop) (draft : Draft Leaf Expr) : Prop :=
  ∀ block ∈ draft.blocks, block.Over ofLeaf ofExpr

section Lowering

variable {ofLeaf : Leaf → Prop} {ofExpr : Expr → Prop}

/-- The items of a modified array are old ones and the one that was changed. -/
theorem mem_of_mem_modify {Item : Type} {items : Array Item} {index : Nat} {change : Item → Item}
    {item : Item} (member : item ∈ items.modify index change) :
    item ∈ items ∨ ∃ old ∈ items, item = change old := by
  obtain ⟨position, found⟩ := Array.getElem?_of_mem member
  rw [Array.getElem?_modify] at found
  split at found
  · obtain ⟨old, atPosition, rfl⟩ := Option.map_eq_some_iff.mp found
    exact Or.inr ⟨old, Array.mem_of_getElem? atPosition, rfl⟩
  · exact Or.inl (Array.mem_of_getElem? found)

namespace Draft

variable {draft : Draft Leaf Expr}

theorem Over.reserve (parts : draft.Over ofLeaf ofExpr) (count : Nat) :
    (draft.reserve count).Over ofLeaf ofExpr := by
  intro block member
  rcases Array.mem_append.mp member with old | new
  · exact parts block old
  · obtain ⟨_, rfl⟩ := Array.mem_replicate.mp new
    exact ⟨by simp, by simp [Terminator.exprs]⟩

/-- A draft stays made of its parts when a block ends with a terminator of such parts. -/
theorem Over.finish (parts : draft.Over ofLeaf ofExpr) {terminator : Terminator Expr}
    (fits : ∀ expr ∈ terminator.exprs, ofExpr expr) :
    (draft.finish terminator).Over ofLeaf ofExpr := by
  intro block member
  simp only [Draft.finish] at member
  rcases mem_of_mem_modify member with old | ⟨old, isOld, rfl⟩
  · exact parts block old
  · exact ⟨(parts old isOld).steps, fits⟩

/-- A draft stays made of its parts when such a step is added. -/
theorem Over.push (parts : draft.Over ofLeaf ofExpr) {step : Step Leaf Expr}
    (fits : step.Over ofLeaf ofExpr) : (draft.push step).Over ofLeaf ofExpr := by
  intro block member
  simp only [Draft.push] at member
  rcases mem_of_mem_modify member with old | ⟨old, isOld, rfl⟩
  · exact parts block old
  · refine ⟨fun other inBlock => ?_, (parts old isOld).terminator⟩
    rcases List.mem_append.mp inBlock with earlier | last
    · exact (parts old isOld).steps other earlier
    · exact List.mem_singleton.mp last ▸ fits

theorem Over.switchTo (parts : draft.Over ofLeaf ofExpr) (block : BlockId) :
    (draft.switchTo block).Over ofLeaf ofExpr := parts

/-- A draft stays made of its parts when control leaves a block for good. -/
theorem Over.jump (parts : draft.Over ofLeaf ofExpr) {terminator : Terminator Expr}
    (fits : ∀ expr ∈ terminator.exprs, ofExpr expr) :
    (draft.jump terminator).Over ofLeaf ofExpr := ((parts.finish fits).reserve 1).switchTo _

theorem Over.goto (parts : draft.Over ofLeaf ofExpr) (target : BlockId) :
    (draft.finish (.goto target)).Over ofLeaf ofExpr := parts.finish (by simp [Terminator.exprs])

theorem Over.branch (parts : draft.Over ofLeaf ofExpr) {condition : Expr}
    (fits : ofExpr condition) (whenTrue whenFalse : BlockId) :
    (draft.finish (.branch condition whenTrue whenFalse)).Over ofLeaf ofExpr :=
  parts.finish (by simpa [Terminator.exprs] using fits)

theorem Over.pushAll {updates : List Expr} (fits : ∀ expr ∈ updates, ofExpr expr) :
    ∀ {draft : Draft Leaf Expr}, draft.Over ofLeaf ofExpr →
      (updates.foldl (fun draft expr => draft.push (.update expr)) draft).Over ofLeaf ofExpr := by
  induction updates with
  | nil => exact fun parts => parts
  | cons expr rest ih =>
      intro draft parts
      rw [List.foldl_cons]
      exact ih (fun other member => fits other (List.mem_cons_of_mem _ member))
        (parts.push (fits expr List.mem_cons_self))

end Draft

mutual

/-- Lowering a statement adds nothing but its contents. -/
theorem lower_over : ∀ (stmt : Stmt Leaf Expr) (jumps? : Option Jumps) (draft : Draft Leaf Expr),
    (∀ leaf ∈ stmt.leaves, ofLeaf leaf) → (∀ expr ∈ stmt.exprs, ofExpr expr) →
    draft.Over ofLeaf ofExpr → (lower jumps? stmt draft).Over ofLeaf ofExpr
  | .simple leaf, _, _, leaves, _, parts =>
      parts.push (leaves leaf (by simp [Stmt.leaves]))
  | .empty, _, _, _, _, parts => parts
  | .block stmts, jumps?, draft, leaves, exprs, parts =>
      lowerAll_over stmts jumps? draft leaves exprs parts
  | .ifElse condition thenBranch none, jumps?, draft, leaves, exprs, parts => by
      have ofCondition := exprs condition (by simp [Stmt.exprs])
      have inThen := fun before => lower_over thenBranch jumps? before leaves
        fun expr member => exprs expr (by simp [Stmt.exprs, member])
      rw [lower]
      refine (Draft.Over.goto (inThen _ ?_) _).switchTo _
      exact ((parts.reserve 2).branch ofCondition _ _).switchTo _
  | .ifElse condition thenBranch (some elseBranch), jumps?, draft, leaves, exprs, parts => by
      have ofCondition := exprs condition (by simp [Stmt.exprs])
      have inThen := fun before => lower_over thenBranch jumps? before
        (fun leaf member => leaves leaf (by simp [Stmt.leaves, member]))
        fun expr member => exprs expr (by simp [Stmt.exprs, member])
      have inElse := fun before => lower_over elseBranch jumps? before
        (fun leaf member => leaves leaf (by simp [Stmt.leaves, member]))
        fun expr member => exprs expr (by simp [Stmt.exprs, member])
      rw [lower]
      refine (Draft.Over.goto (inElse _ ?_) _).switchTo _
      refine (Draft.Over.goto (inThen _ ?_) _).switchTo _
      exact ((parts.reserve 3).branch ofCondition _ _).switchTo _
  | .whileLoop condition body, _, draft, leaves, exprs, parts => by
      have ofCondition := exprs condition (by simp [Stmt.exprs])
      have inBody := fun inner before => lower_over body inner before leaves
        fun expr member => exprs expr (by simp [Stmt.exprs, member])
      rw [lower]
      refine (Draft.Over.goto (inBody _ _ ?_) _).switchTo _
      exact ((((parts.reserve 3).goto _).switchTo _).branch ofCondition _ _).switchTo _
  | .doWhile body condition, _, draft, leaves, exprs, parts => by
      have ofCondition := exprs condition (by simp [Stmt.exprs])
      have inBody := fun inner before => lower_over body inner before leaves
        fun expr member => exprs expr (by simp [Stmt.exprs, member])
      rw [lower]
      refine (Draft.Over.branch (((inBody _ _ ?_).goto _).switchTo _) ofCondition _ _).switchTo _
      exact ((parts.reserve 3).goto _).switchTo _
  | .forLoop init condition? updates body, jumps?, draft, leaves, exprs, parts => by
      have inInit := lowerAll_over init jumps? draft
        (fun leaf member => leaves leaf (by simp [Stmt.leaves, member]))
        (fun expr member => exprs expr (by simp [Stmt.exprs, member])) parts
      have ofCondition : ∀ condition ∈ condition?, ofExpr condition := fun condition same =>
        exprs condition (by simp [Stmt.exprs, Option.mem_def.mp same])
      have ofUpdates : ∀ expr ∈ updates, ofExpr expr := fun expr member =>
        exprs expr (by simp [Stmt.exprs, member])
      have inBody := fun inner before => lower_over body inner before
        (fun leaf member => leaves leaf (by simp [Stmt.leaves, member]))
        fun expr member => exprs expr (by simp [Stmt.exprs, member])
      simp only [lower]
      have atHead := ((inInit.reserve 4).goto (lowerAll jumps? init draft).next).switchTo
        (lowerAll jumps? init draft).next
      refine (Draft.Over.goto (Draft.Over.pushAll ofUpdates
        ((Draft.Over.goto (inBody _ _ ?_) _).switchTo _)) _).switchTo _
      cases condition? with
      | none => exact (atHead.goto _).switchTo _
      | some condition => exact (atHead.branch (ofCondition condition rfl) _ _).switchTo _
  | .switch scrutinee arms, _, draft, leaves, exprs, parts => by
      have ofScrutinee := exprs scrutinee (by simp [Stmt.exprs])
      have inArms := fun inner first before => lowerArms_over arms inner first before leaves
        fun expr member => exprs expr (by simp [Stmt.exprs, member])
      simp only [lower]
      refine (inArms _ _ _ ?_).switchTo _
      exact (parts.reserve _).finish (by simpa [Terminator.exprs] using ofScrutinee)
  | .breakOut, none, _, _, _, parts => parts.jump (by simp [Terminator.exprs])
  | .breakOut, some _, _, _, _, parts => parts.jump (by simp [Terminator.exprs])
  | .continueLoop, none, _, _, _, parts => parts.jump (by simp [Terminator.exprs])
  | .continueLoop, some _, _, _, _, parts => parts.jump (by simp [Terminator.exprs])
  | .returnValue _ _, _, _, _, exprs, parts => parts.jump exprs
  | .throwValue _, _, _, _, exprs, parts => parts.jump exprs

/-- Lowering statements adds nothing but their leaves and their expressions. -/
theorem lowerAll_over : ∀ (stmts : List (Stmt Leaf Expr)) (jumps? : Option Jumps)
    (draft : Draft Leaf Expr), (∀ leaf ∈ Stmt.leavesAll stmts, ofLeaf leaf) →
    (∀ expr ∈ Stmt.exprsAll stmts, ofExpr expr) → draft.Over ofLeaf ofExpr →
    (lowerAll jumps? stmts draft).Over ofLeaf ofExpr
  | [], _, _, _, _, parts => parts
  | stmt :: rest, jumps?, draft, leaves, exprs, parts => by
      have inStmt := lower_over stmt jumps? draft
        (fun leaf member => leaves leaf (by simp [Stmt.leavesAll, member]))
        (fun expr member => exprs expr (by simp [Stmt.exprsAll, member])) parts
      exact lowerAll_over rest jumps? _
        (fun leaf member => leaves leaf (by simp [Stmt.leavesAll, member]))
        (fun expr member => exprs expr (by simp [Stmt.exprsAll, member])) inStmt

/-- Lowering the arms of a switch adds nothing but the parts of their bodies. -/
theorem lowerArms_over : ∀ (arms : List (Arm (Stmt Leaf Expr))) (jumps : Jumps) (block : BlockId)
    (draft : Draft Leaf Expr), (∀ leaf ∈ Stmt.leavesArms arms, ofLeaf leaf) →
    (∀ expr ∈ Stmt.exprsArms arms, ofExpr expr) → draft.Over ofLeaf ofExpr →
    (lowerArms jumps block arms draft).Over ofLeaf ofExpr
  | [], _, _, _, _, _, parts => parts
  | ⟨_, body⟩ :: rest, jumps, block, draft, leaves, exprs, parts => by
      have inBody := lowerAll_over body (some jumps) (draft.switchTo block)
        (fun leaf member => leaves leaf (by simp [Stmt.leavesArms, member]))
        (fun expr member => exprs expr (by simp [Stmt.exprsArms, member])) (parts.switchTo block)
      exact lowerArms_over rest jumps (block + 1) _
        (fun leaf member => leaves leaf (by simp [Stmt.leavesArms, member]))
        (fun expr member => exprs expr (by simp [Stmt.exprsArms, member])) (inBody.goto _)

end

/-- The graph of a tree consists of the statements and expressions of the tree. -/
theorem FlowGraph.ofStmt_over {root : Stmt Leaf Expr} (leaves : ∀ leaf ∈ root.leaves, ofLeaf leaf)
    (exprs : ∀ expr ∈ root.exprs, ofExpr expr) : (ofStmt root).Over ofLeaf ofExpr := by
  have atStart : Draft.Over ofLeaf ofExpr (Draft.start : Draft Leaf Expr) := by
    intro block member
    obtain rfl := Array.mem_singleton.mp member
    exact ⟨by simp, by simp [Terminator.exprs]⟩
  exact (lower_over root none .start leaves exprs atStart).finish (by simp [Terminator.exprs])

end Lowering
end NullFlow
