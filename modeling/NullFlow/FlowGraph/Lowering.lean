import NullFlow.FlowGraph.Basic
/-!
The lowering of statement trees to control-flow graphs. Blocks are numbered in the order in which
the lowering needs them. Code after a jump lands in a block that no edge leads to.
-/

namespace NullFlow

/-- Where the jumps out of a loop or a switch go. -/
structure Jumps where
  continueTo : BlockId
  breakTo : BlockId

/-- A graph under construction. New code goes to the block `current`. -/
structure Draft (Leaf Expr : Type) where
  blocks : Array (Block Leaf Expr)
  current : BlockId

namespace Draft

variable {Leaf Expr : Type}

/-- A draft with one empty block. -/
def start : Draft Leaf Expr := ⟨#[⟨[], .exit⟩], 0⟩

/-- The number that the next new block gets. -/
def next (draft : Draft Leaf Expr) : BlockId := draft.blocks.size

/-- Adds empty blocks. -/
def reserve (draft : Draft Leaf Expr) (count : Nat) : Draft Leaf Expr :=
  { draft with blocks := draft.blocks ++ Array.replicate count ⟨[], .exit⟩ }

/-- Ends the current block. -/
def finish (draft : Draft Leaf Expr) (terminator : Terminator Expr) : Draft Leaf Expr :=
  { draft with
    blocks := draft.blocks.modify draft.current fun block => { block with terminator } }

/-- Adds a step to the current block. -/
def push (draft : Draft Leaf Expr) (step : Step Leaf Expr) : Draft Leaf Expr :=
  { draft with
    blocks := draft.blocks.modify draft.current fun block =>
      { block with steps := block.steps ++ [step] } }

/-- Goes on in another block. -/
def switchTo (draft : Draft Leaf Expr) (block : BlockId) : Draft Leaf Expr :=
  { draft with current := block }

/-- Ends the current block with a jump. What follows goes to a new block. -/
def jump (draft : Draft Leaf Expr) (terminator : Terminator Expr) : Draft Leaf Expr :=
  ((draft.finish terminator).reserve 1).switchTo draft.next

end Draft

section Lowering

variable {Leaf Expr : Type}

mutual

/-- Appends the code of a statement to a draft. -/
def lower (jumps? : Option Jumps) : Stmt Leaf Expr → Draft Leaf Expr → Draft Leaf Expr
  | .simple leaf, draft => draft.push (.simple leaf)
  | .empty, draft => draft
  | .block stmts, draft => lowerAll jumps? stmts draft
  | .ifElse condition thenBranch none, draft =>
      let whenTrue := draft.next
      let join := draft.next + 1
      let draft := ((draft.reserve 2).finish (.branch condition whenTrue join)).switchTo whenTrue
      ((lower jumps? thenBranch draft).finish (.goto join)).switchTo join
  | .ifElse condition thenBranch (some elseBranch), draft =>
      let whenTrue := draft.next
      let whenFalse := draft.next + 1
      let join := draft.next + 2
      let draft :=
        ((draft.reserve 3).finish (.branch condition whenTrue whenFalse)).switchTo whenTrue
      let draft := ((lower jumps? thenBranch draft).finish (.goto join)).switchTo whenFalse
      ((lower jumps? elseBranch draft).finish (.goto join)).switchTo join
  | .whileLoop condition body, draft =>
      let head := draft.next
      let inside := draft.next + 1
      let after := draft.next + 2
      let draft := ((draft.reserve 3).finish (.goto head)).switchTo head
      let draft := (draft.finish (.branch condition inside after)).switchTo inside
      ((lower (some ⟨head, after⟩) body draft).finish (.goto head)).switchTo after
  | .doWhile body condition, draft =>
      let inside := draft.next
      let check := draft.next + 1
      let after := draft.next + 2
      let draft := ((draft.reserve 3).finish (.goto inside)).switchTo inside
      let draft := ((lower (some ⟨check, after⟩) body draft).finish (.goto check)).switchTo check
      (draft.finish (.branch condition inside after)).switchTo after
  | .forLoop init condition? updates body, draft =>
      let draft := lowerAll jumps? init draft
      let head := draft.next
      let inside := draft.next + 1
      let step := draft.next + 2
      let after := draft.next + 3
      let draft := ((draft.reserve 4).finish (.goto head)).switchTo head
      let draft := match condition? with
        | some condition => draft.finish (.branch condition inside after)
        | none => draft.finish (.goto inside)
      let draft := lower (some ⟨step, after⟩) body (draft.switchTo inside)
      let draft := (draft.finish (.goto step)).switchTo step
      let draft := updates.foldl (fun draft expr => draft.push (.update expr)) draft
      (draft.finish (.goto head)).switchTo after
  | .switch scrutinee arms, draft =>
      let after := draft.next
      let first := draft.next + 1
      let patterns := arms.map Arm.pattern?
      let targets := patterns.zipIdx.map fun (pattern?, index) => ⟨pattern?, first + index⟩
      let otherwise := if patterns.all Option.isSome then [⟨none, after⟩] else []
      let draft := (draft.reserve (arms.length + 1)).finish
        (.switch scrutinee (targets ++ otherwise))
      let continueTo := match jumps? with
        | some jumps => jumps.continueTo
        | none => after
      (lowerArms ⟨continueTo, after⟩ first arms draft).switchTo after
  | .breakOut, draft =>
      match jumps? with
      | some jumps => draft.jump (.goto jumps.breakTo)
      | none => draft.jump .exit
  | .continueLoop, draft =>
      match jumps? with
      | some jumps => draft.jump (.goto jumps.continueTo)
      | none => draft.jump .exit
  | .returnValue value? span, draft => draft.jump (.returnValue value? span)
  | .throwValue value?, draft => draft.jump (.throwValue value?)

/-- Appends the code of a list of statements. -/
def lowerAll (jumps? : Option Jumps) :
    List (Stmt Leaf Expr) → Draft Leaf Expr → Draft Leaf Expr
  | [], draft => draft
  | stmt :: rest, draft => lowerAll jumps? rest (lower jumps? stmt draft)

/-- Lowers the arms of a switch into consecutive blocks. The end of an arm leaves the switch. -/
def lowerArms (jumps : Jumps) :
    BlockId → List (Arm (Stmt Leaf Expr)) → Draft Leaf Expr → Draft Leaf Expr
  | _, [], draft => draft
  | block, ⟨_, body⟩ :: rest, draft =>
      let draft := lowerAll (some jumps) body (draft.switchTo block)
      lowerArms jumps (block + 1) rest (draft.finish (.goto jumps.breakTo))

end

end Lowering

namespace FlowGraph

variable {Leaf Expr : Type}

/-- The graph of a statement tree. -/
def ofStmt (root : Stmt Leaf Expr) : FlowGraph Leaf Expr :=
  ⟨((lower none root .start).finish .exit).blocks⟩

/-- The graph of code that only returns a value. -/
def ofValue (value : Expr) (span : Span) : FlowGraph Leaf Expr :=
  ⟨#[⟨[], .returnValue (some value) span⟩]⟩

end FlowGraph
end NullFlow
