import Mathlib.Algebra.Order.Field.Basic
import NullFlow.Proofs.Execution.Drafts
import NullFlow.Proofs.FlowGraph.Loops
/-!
The graphs of statement trees are structured. While code goes to a draft, its new blocks are given
ranks between that of the current block and that of the block at which the code around it goes on.
-/

namespace NullFlow

variable {Leaf Expr : Type}

/-- Places new blocks, from a number on. -/
def extendPlace (place : BlockId → Placement) (first : Nat) (added : List Placement) :
    BlockId → Placement :=
  fun id => if id < first then place id else added.getD (id - first) ⟨0, []⟩

section Extend

variable {place : BlockId → Placement} {first : Nat} {added : List Placement}

/-- Old blocks keep their places. -/
theorem extendPlace_old {id : Nat} (old : id < first) : extendPlace place first added id = place id :=
  if_pos old

/-- New blocks get the places that are added for them. -/
theorem extendPlace_new (index : Nat) :
    extendPlace place first added (first + index) = added.getD index ⟨0, []⟩ := by
  rw [extendPlace, if_neg (Nat.not_lt_of_le (Nat.le_add_right first index)), Nat.add_sub_cancel_left]

end Extend

/-- The placements agree on the blocks before a number. -/
def SamePlaces (count : Nat) (before after : BlockId → Placement) : Prop :=
  ∀ id < count, after id = before id

theorem SamePlaces.trans {first second third : BlockId → Placement} {count more : Nat}
    (early : SamePlaces count first second) (enough : count ≤ more)
    (late : SamePlaces more second third) : SamePlaces count first third := fun id inside =>
  (late id (lt_of_lt_of_le inside enough)).trans (early id inside)

/-- An edge between old blocks goes the same way when places are added. -/
theorem Joins.extend {before after : BlockId → Placement} {count source target : Nat}
    (same : SamePlaces count before after) (insideSource : source < count)
    (insideTarget : target < count) (joins : Joins before source target) :
    Joins after source target := by
  obtain ⟨direction, inward⟩ := joins
  constructor
  · rw [same source insideSource, same target insideTarget]
    exact direction
  · rw [same source insideSource, same target insideTarget]
    exact inward

/-- A block to which code may lead that lies in the loops and below the rank. -/
structure Admits (place : BlockId → Placement) (count : Nat) (heads : List BlockId) (top : ℚ)
    (target : BlockId) : Prop where
  inside : target < count
  direction : top ≤ (place target).rank ∨ target ∈ heads
  inward : ∀ head ∈ (place target).heads, head = target ∨ head ∈ heads

/-- A block may jump to every target that is admitted above its rank. -/
theorem Admits.joins {place : BlockId → Placement} {count : Nat} {top : ℚ} {source target : BlockId}
    (admits : Admits place count (place source).heads top target)
    (below : (place source).rank < top) : Joins place source target where
  direction := admits.direction.imp_left fun above => lt_of_lt_of_le below above
  inward := admits.inward

/-- Code below a block may lead to it, if it enters one loop at most. -/
theorem admits_forward {place : BlockId → Placement} {count target : Nat} {heads inner : List BlockId}
    {rank : ℚ} (inside : target < count) (atTarget : place target = ⟨rank, inner⟩)
    (inward : ∀ head ∈ inner, head = target ∨ head ∈ heads) :
    Admits place count heads rank target where
  inside := inside
  direction := Or.inl (by rw [atTarget])
  inward := by
    rw [atTarget]
    exact inward

/-- Code in a loop may lead back to its head. -/
theorem admits_back {place : BlockId → Placement} {count target : Nat} {heads inner : List BlockId}
    {rank : ℚ} (inside : target < count) (atTarget : place target = ⟨rank, inner⟩)
    (inward : inner ⊆ heads) (inLoop : target ∈ heads) (top : ℚ) :
    Admits place count heads top target where
  inside := inside
  direction := Or.inr inLoop
  inward := by
    rw [atTarget]
    exact fun head isHead => Or.inr (inward isHead)

/-- More blocks, more loops around the code and a lower rank admit what was admitted. -/
theorem Admits.weaken {before after : BlockId → Placement} {count more : Nat}
    {heads inner : List BlockId} {top lower : ℚ} {target : BlockId}
    (admits : Admits before count heads top target) (same : SamePlaces count before after)
    (enough : count ≤ more) (deeper : heads ⊆ inner) (less : lower ≤ top) :
    Admits after more inner lower target where
  inside := lt_of_lt_of_le admits.inside enough
  direction := by
    rw [same target admits.inside]
    exact admits.direction.imp (le_trans less) fun member => deeper member
  inward := by
    rw [same target admits.inside]
    intro head isHead
    exact (admits.inward head isHead).imp_right fun member => deeper member

/-- What is admitted under a rank is admitted under a lower one. -/
theorem Admits.below {place : BlockId → Placement} {count : Nat} {heads : List BlockId}
    {top lower : ℚ} {target : BlockId} (admits : Admits place count heads top target)
    (less : lower ≤ top) : Admits place count heads lower target :=
  admits.weaken (fun _ _ => rfl) (le_refl _) (List.Subset.refl _) less

namespace Draft

/-- All edges of the draft keep to the placement. -/
def Keeps (place : BlockId → Placement) (draft : Draft Leaf Expr) : Prop :=
  ∀ source block, draft.block? source = some block → ∀ edge ∈ block.terminator.successors,
    edge.1 < draft.next ∧ Joins place source edge.1

/-- The current block lies in the loops and below the rank. -/
structure Stands (place : BlockId → Placement) (heads : List BlockId) (top : ℚ)
    (draft : Draft Leaf Expr) : Prop where
  isOpen : draft.IsOpen
  heads : (place draft.current).heads = heads
  below : (place draft.current).rank < top

section Operations

variable {place : BlockId → Placement} {draft : Draft Leaf Expr}

/-- A draft keeps to its places if a block ends with edges that go forward or to a head around it.
-/
theorem Keeps.finish (keeps : draft.Keeps place) {terminator : Terminator Expr}
    (each : ∀ edge ∈ terminator.successors,
      edge.1 < draft.next ∧ Joins place draft.current edge.1) :
    (draft.finish terminator).Keeps place := by
  intro source block found edge isEdge
  rw [block?_finish] at found
  rw [next_finish]
  split at found
  · rename_i same
    obtain ⟨old, -, rfl⟩ := Option.map_eq_some_iff.mp found
    rw [same]
    exact each edge isEdge
  · exact keeps source block found edge isEdge

/-- From where the draft stands every admitted target may be reached. -/
theorem Stands.edge {heads : List BlockId} {top : ℚ} (stands : draft.Stands place heads top)
    {target : BlockId} (admits : Admits place draft.next heads top target) :
    target < draft.next ∧ Joins place draft.current target := by
  rw [← stands.heads] at admits
  exact ⟨admits.inside, admits.joins stands.below⟩

theorem Keeps.goto {heads : List BlockId} {top : ℚ} (keeps : draft.Keeps place)
    (stands : draft.Stands place heads top) {target : BlockId}
    (admits : Admits place draft.next heads top target) :
    (draft.finish (.goto target)).Keeps place := by
  apply keeps.finish
  intro edge isEdge
  obtain rfl := List.mem_singleton.mp isEdge
  exact stands.edge admits

theorem Keeps.branch {heads : List BlockId} {top : ℚ} (keeps : draft.Keeps place)
    (stands : draft.Stands place heads top) {whenTrue whenFalse : BlockId}
    (admitsTrue : Admits place draft.next heads top whenTrue)
    (admitsFalse : Admits place draft.next heads top whenFalse) (condition : Expr) :
    (draft.finish (.branch condition whenTrue whenFalse)).Keeps place := by
  apply keeps.finish
  intro edge isEdge
  rcases List.mem_pair.mp isEdge with rfl | rfl
  · exact stands.edge admitsTrue
  · exact stands.edge admitsFalse

/-- Code goes on in a block that is placed. -/
theorem stands_switchTo {heads : List BlockId} {top rank : ℚ} {target : BlockId}
    (inside : target < draft.next) (atTarget : place target = ⟨rank, heads⟩) (below : rank < top) :
    (draft.switchTo target).Stands place heads top where
  isOpen := inside
  heads := congrArg Placement.heads atTarget
  below := by
    change (place target).rank < top
    rw [atTarget]
    exact below

theorem Keeps.switchTo (keeps : draft.Keeps place) (block : BlockId) :
    (draft.switchTo block).Keeps place := keeps

theorem Keeps.push (keeps : draft.Keeps place) (step : Step Leaf Expr) :
    (draft.push step).Keeps place := by
  intro source block found edge isEdge
  rw [block?_push] at found
  rw [next_push]
  split at found
  · obtain ⟨old, wasThere, rfl⟩ := Option.map_eq_some_iff.mp found
    exact keeps source old wasThere edge isEdge
  · exact keeps source block found edge isEdge

theorem Keeps.reserve (keeps : draft.Keeps place) {later : BlockId → Placement}
    (same : SamePlaces draft.next place later) (count : Nat) :
    (draft.reserve count).Keeps later := by
  intro source block found edge isEdge
  by_cases old : source < draft.next
  · rw [block?_reserve_old draft count old] at found
    obtain ⟨inside, joins⟩ := keeps source block found edge isEdge
    rw [next_reserve]
    exact ⟨Nat.lt_add_right count inside, joins.extend same old inside⟩
  · have inside := lt_next _ found
    rw [next_reserve] at inside
    rw [block?_reserve_new draft count (Nat.le_of_not_lt old) inside] at found
    obtain rfl := Option.some.inj found
    cases isEdge

end Operations

end Draft

open Draft

/-- Code went to a draft. The blocks before stay in their places, and the code goes on in the same
loops and below the same rank. -/
structure Arranges (place : BlockId → Placement) (heads : List BlockId) (top : ℚ)
    (before after : Draft Leaf Expr) (later : BlockId → Placement) : Prop where
  same : SamePlaces before.next place later
  size_le : before.next ≤ after.next
  keeps : after.Keeps later
  stands : after.Stands later heads top

/-- The jumps are admitted in the loops and below the rank. -/
def JumpsAdmitted (place : BlockId → Placement) (count : Nat) (heads : List BlockId) (top : ℚ)
    (jumps? : Option Jumps) : Prop :=
  ∀ jumps ∈ jumps?, Admits place count heads top jumps.continueTo ∧
    Admits place count heads top jumps.breakTo

/-- Jumps stay admitted deeper inside and under lower ranks. -/
theorem JumpsAdmitted.weaken {before after : BlockId → Placement} {count more : Nat}
    {heads inner : List BlockId} {top lower : ℚ} {jumps? : Option Jumps}
    (admitted : JumpsAdmitted before count heads top jumps?) (same : SamePlaces count before after)
    (enough : count ≤ more) (deeper : heads ⊆ inner) (less : lower ≤ top) :
    JumpsAdmitted after more inner lower jumps? := fun jumps isJumps =>
  ⟨(admitted jumps isJumps).1.weaken same enough deeper less,
    (admitted jumps isJumps).2.weaken same enough deeper less⟩

/-- Wherever the current block stands, an operation on drafts finds places for its new blocks. -/
def Arrangeable (jumps? : Option Jumps) (operation : Draft Leaf Expr → Draft Leaf Expr) : Prop :=
  ∀ draft place heads top, draft.Keeps place → draft.Stands place heads top →
    JumpsAdmitted place draft.next heads top jumps? →
    ∃ later, Arranges place heads top draft (operation draft) later

/-- Blocks were reserved and got places. -/
structure Reserves (place : BlockId → Placement) (draft : Draft Leaf Expr) (added : List Placement)
    (later : BlockId → Placement) : Prop where
  same : SamePlaces draft.next place later
  new : ∀ index, later (draft.next + index) = added.getD index ⟨0, []⟩
  keeps : (draft.reserve added.length).Keeps later

/-- Blocks may be reserved at any places. -/
theorem Draft.Keeps.reserves {place : BlockId → Placement} {draft : Draft Leaf Expr}
    (keeps : draft.Keeps place) (added : List Placement) :
    ∃ later, Reserves place draft added later :=
  ⟨extendPlace place draft.next added, fun _ inside => extendPlace_old inside, extendPlace_new,
    keeps.reserve (fun _ inside => extendPlace_old inside) _⟩

/-- The current block stands where it stood, below the new blocks. -/
theorem Reserves.stands {place later : BlockId → Placement} {draft : Draft Leaf Expr}
    {added : List Placement} {heads : List BlockId} {top lower : ℚ}
    (reserved : Reserves place draft added later) (stands : draft.Stands place heads top)
    (below : (place draft.current).rank < lower) :
    (draft.reserve added.length).Stands later heads lower where
  isOpen := by
    have isOpen : draft.current < draft.next := stands.isOpen
    simpa [Draft.IsOpen] using Nat.lt_add_right _ isOpen
  heads := by
    rw [current_reserve, reserved.same _ stands.isOpen]
    exact stands.heads
  below := by
    rw [current_reserve, reserved.same _ stands.isOpen]
    exact below

section Statements

variable {jumps? : Option Jumps}

theorem arrangeable_same : Arrangeable jumps? (id : Draft Leaf Expr → Draft Leaf Expr) :=
  fun _ place _ _ keeps stands _ => ⟨place, fun _ _ => rfl, Nat.le_refl _, keeps, stands⟩

/-- Two parts of a lowering may be arranged one after the other. -/
theorem Arrangeable.seq {first second : Draft Leaf Expr → Draft Leaf Expr}
    (early : Arrangeable jumps? first) (late : Arrangeable jumps? second) :
    Arrangeable jumps? fun draft => second (first draft) := by
  intro draft place heads top keeps stands admitted
  obtain ⟨middle, arranged⟩ := early draft place heads top keeps stands admitted
  obtain ⟨later, finished⟩ := late _ middle heads top arranged.keeps arranged.stands
    (admitted.weaken arranged.same arranged.size_le (List.Subset.refl _) (le_refl _))
  refine ⟨later, fun id inside => ?_, le_trans arranged.size_le finished.size_le, finished.keeps,
    finished.stands⟩
  rw [finished.same id (lt_of_lt_of_le inside arranged.size_le), arranged.same id inside]

/-- A step goes to the block where the draft stands. -/
theorem arrangeable_push (step : Step Leaf Expr) :
    Arrangeable jumps? fun draft : Draft Leaf Expr => draft.push step := by
  intro draft place heads top keeps stands _
  refine ⟨place, fun _ _ => rfl, by simp, keeps.push step, ⟨?_, stands.heads, stands.below⟩⟩
  simpa [Draft.IsOpen] using stands.isOpen

/-- What follows a jump is reached by no edge. -/
theorem arrangeable_jump {terminator : Terminator Expr}
    (each : ∀ edge ∈ terminator.successors, ∃ jumps ∈ jumps?,
      edge.1 = jumps.continueTo ∨ edge.1 = jumps.breakTo) :
    Arrangeable jumps? fun draft : Draft Leaf Expr => draft.jump terminator := by
  intro draft place heads top keeps stands admitted
  have finished : (draft.finish terminator).Keeps place := by
    apply keeps.finish
    intro edge isEdge
    obtain ⟨jumps, isJumps, toTarget⟩ := each edge isEdge
    apply stands.edge
    rcases toTarget with same | same
    · exact same ▸ (admitted jumps isJumps).1
    · exact same ▸ (admitted jumps isJumps).2
  obtain ⟨later, reserved⟩ := finished.reserves [place draft.current]
  have atNew : later draft.next = ⟨(place draft.current).rank, heads⟩ := by
    rw [← stands.heads]
    simpa using reserved.new 0
  exact ⟨later, by simpa using reserved.same, by simp [Draft.jump], reserved.keeps,
    stands_switchTo (by simp) atNew stands.below⟩

/-- A part went to a block that was placed, and ends with a jump. -/
structure Encloses (place : BlockId → Placement) (before after : Draft Leaf Expr)
    (later : BlockId → Placement) : Prop where
  same : SamePlaces before.next place later
  size_le : before.next ≤ after.next
  keeps : after.Keeps later

/-- The part of a statement goes to a block and leads on to another one. -/
theorem Arrangeable.enclose {part : Draft Leaf Expr → Draft Leaf Expr}
    (ofPart : Arrangeable jumps? part) {draft : Draft Leaf Expr} {place : BlockId → Placement}
    (keeps : draft.Keeps place) {block : BlockId} {rank top : ℚ} {heads : List BlockId}
    (inside : block < draft.next) (atBlock : place block = ⟨rank, heads⟩) (below : rank < top)
    (admitted : JumpsAdmitted place draft.next heads top jumps?) {target : BlockId}
    (admits : Admits place draft.next heads top target) :
    ∃ later, Encloses place draft ((part (draft.switchTo block)).finish (.goto target)) later := by
  obtain ⟨later, arranged⟩ := ofPart (draft.switchTo block) place heads top (keeps.switchTo block)
    (stands_switchTo inside atBlock below) admitted
  have size_le : draft.next ≤ (part (draft.switchTo block)).next := arranged.size_le
  refine ⟨later, arranged.same, by simpa using size_le, ?_⟩
  apply arranged.keeps.goto arranged.stands
  exact admits.weaken arranged.same size_le (List.Subset.refl _) (le_refl _)

/-- The code around a part goes on in a block that was placed before the part. -/
theorem Encloses.arranges {first place later : BlockId → Placement} {heads : List BlockId}
    {top rank : ℚ} {start before after : Draft Leaf Expr}
    (encloses : Encloses place before after later) (same : SamePlaces start.next first place)
    (enough : start.next ≤ before.next) {target : BlockId} (inside : target < before.next)
    (atTarget : place target = ⟨rank, heads⟩) (below : rank < top) :
    Arranges first heads top start (after.switchTo target) later where
  same := same.trans enough encloses.same
  size_le := le_trans enough encloses.size_le
  keeps := encloses.keeps
  stands := stands_switchTo (lt_of_lt_of_le inside encloses.size_le)
    ((encloses.same target inside).trans atTarget) below

/-- What is enclosed twice is enclosed. -/
theorem Encloses.trans {first second third : BlockId → Placement}
    {before middle after : Draft Leaf Expr} (early : Encloses first before middle second)
    (late : Encloses second middle after third) : Encloses first before after third where
  same := early.same.trans early.size_le late.same
  size_le := le_trans early.size_le late.size_le
  keeps := late.keeps

/-- Jumps that were admitted before are admitted after. -/
theorem Encloses.jumps {place later : BlockId → Placement} {before after : Draft Leaf Expr}
    (encloses : Encloses place before after later) {heads : List BlockId} {top : ℚ}
    (admitted : JumpsAdmitted place before.next heads top jumps?) :
    JumpsAdmitted later after.next heads top jumps? :=
  admitted.weaken encloses.same encloses.size_le (List.Subset.refl _) (le_refl _)

/-- A target that was admitted before is admitted after. -/
theorem Encloses.admits {place later : BlockId → Placement} {before after : Draft Leaf Expr}
    (encloses : Encloses place before after later) {heads : List BlockId} {top : ℚ}
    {target : BlockId} (admits : Admits place before.next heads top target) :
    Admits later after.next heads top target :=
  admits.weaken encloses.same encloses.size_le (List.Subset.refl _) (le_refl _)

/-- Jumps are admitted if both of their targets are. -/
theorem jumpsAdmitted_some {place : BlockId → Placement} {count : Nat} {heads : List BlockId}
    {top : ℚ} {continueTo breakTo : BlockId} (toContinue : Admits place count heads top continueTo)
    (toBreak : Admits place count heads top breakTo) :
    JumpsAdmitted place count heads top (some ⟨continueTo, breakTo⟩) := by
  intro jumps isJumps
  obtain rfl := Option.some.inj isJumps
  exact ⟨toContinue, toBreak⟩

/-- An if without an else finds places: the branch first, then what follows. -/
theorem arrangeable_if (condition : Expr) {thenBranch : Draft Leaf Expr → Draft Leaf Expr}
    (ofThen : Arrangeable jumps? thenBranch) : Arrangeable jumps? fun draft =>
      ((thenBranch (((draft.reserve 2).finish
        (.branch condition draft.next (draft.next + 1))).switchTo draft.next)).finish
        (.goto (draft.next + 1))).switchTo (draft.next + 1) := by
  intro draft before heads top keeps stands admitted
  obtain ⟨inside, aboveCurrent, insideBelow⟩ := exists_between stands.below
  obtain ⟨join, aboveInside, joinBelow⟩ := exists_between insideBelow
  obtain ⟨place, reserved⟩ := keeps.reserves [⟨inside, heads⟩, ⟨join, heads⟩]
  have atInside : place draft.next = ⟨inside, heads⟩ := reserved.new 0
  have atJoin : place (draft.next + 1) = ⟨join, heads⟩ := reserved.new 1
  have toInside : Admits place (draft.reserve 2).next heads inside draft.next :=
    admits_forward (by simp) atInside fun _ => Or.inr
  have toJoin : Admits place (draft.reserve 2).next heads join (draft.next + 1) :=
    admits_forward (by simp) atJoin fun _ => Or.inr
  have branched := reserved.keeps.branch (reserved.stands stands aboveCurrent) toInside
    (toJoin.below aboveInside.le) condition
  obtain ⟨later, encloses⟩ := ofThen.enclose branched (by simp) atInside aboveInside
    (admitted.weaken reserved.same (by simp) (List.Subset.refl _) joinBelow.le)
    (by simpa using toJoin)
  exact ⟨later, encloses.arranges reserved.same (by simp) (by simp) atJoin joinBelow⟩

/-- An if finds places: both branches first, then what follows. -/
theorem arrangeable_ifElse (condition : Expr)
    {thenBranch elseBranch : Draft Leaf Expr → Draft Leaf Expr}
    (ofThen : Arrangeable jumps? thenBranch) (ofElse : Arrangeable jumps? elseBranch) :
    Arrangeable jumps? fun draft =>
      ((elseBranch (((thenBranch (((draft.reserve 3).finish
        (.branch condition draft.next (draft.next + 1))).switchTo draft.next)).finish
        (.goto (draft.next + 2))).switchTo (draft.next + 1))).finish
        (.goto (draft.next + 2))).switchTo (draft.next + 2) := by
  intro draft before heads top keeps stands admitted
  obtain ⟨inside, aboveCurrent, insideBelow⟩ := exists_between stands.below
  obtain ⟨join, aboveInside, joinBelow⟩ := exists_between insideBelow
  obtain ⟨place, reserved⟩ := keeps.reserves [⟨inside, heads⟩, ⟨inside, heads⟩, ⟨join, heads⟩]
  have atThen : place draft.next = ⟨inside, heads⟩ := reserved.new 0
  have atElse : place (draft.next + 1) = ⟨inside, heads⟩ := reserved.new 1
  have atJoin : place (draft.next + 2) = ⟨join, heads⟩ := reserved.new 2
  have toThen : Admits place (draft.reserve 3).next heads inside draft.next :=
    admits_forward (by simp) atThen fun _ => Or.inr
  have toElse : Admits place (draft.reserve 3).next heads inside (draft.next + 1) :=
    admits_forward (by simp) atElse fun _ => Or.inr
  have toJoin : Admits place (draft.reserve 3).next heads join (draft.next + 2) :=
    admits_forward (by simp) atJoin fun _ => Or.inr
  have branched := reserved.keeps.branch (reserved.stands stands aboveCurrent) toThen toElse
    condition
  have admitted := admitted.weaken reserved.same
    (by simp : draft.next ≤ ((draft.reserve 3).finish
      (.branch condition draft.next (draft.next + 1))).next)
    (List.Subset.refl _) joinBelow.le
  have toJoin : Admits place ((draft.reserve 3).finish
      (.branch condition draft.next (draft.next + 1))).next heads join (draft.next + 2) := by
    simpa using toJoin
  obtain ⟨middle, inThen⟩ := ofThen.enclose branched (by simp) atThen aboveInside admitted toJoin
  obtain ⟨later, inElse⟩ := ofElse.enclose inThen.keeps
    (lt_of_lt_of_le (by simp) inThen.size_le) ((inThen.same _ (by simp)).trans atElse) aboveInside
    (inThen.jumps admitted) (inThen.admits toJoin)
  exact ⟨later, (inThen.trans inElse).arranges reserved.same (by simp) (by simp) atJoin joinBelow⟩

/-- A while loop finds places: its condition is the head that the body goes back to. -/
theorem arrangeable_while (condition : Expr) {body : Jumps → Draft Leaf Expr → Draft Leaf Expr}
    (ofBody : ∀ jumps, Arrangeable (some jumps) (body jumps)) : Arrangeable jumps? fun draft =>
      ((body ⟨draft.next, draft.next + 2⟩ (((((draft.reserve 3).finish (.goto draft.next)).switchTo
        draft.next).finish (.branch condition (draft.next + 1) (draft.next + 2))).switchTo
        (draft.next + 1))).finish (.goto draft.next)).switchTo (draft.next + 2) := by
  intro draft before heads top keeps stands _
  beta_reduce
  obtain ⟨head, aboveCurrent, headBelow⟩ := exists_between stands.below
  obtain ⟨inside, aboveHead, insideBelow⟩ := exists_between headBelow
  obtain ⟨after, aboveInside, afterBelow⟩ := exists_between insideBelow
  obtain ⟨place, reserved⟩ := keeps.reserves [⟨head, draft.next :: heads⟩,
    ⟨inside, draft.next :: heads⟩, ⟨after, heads⟩]
  have atHead : place draft.next = ⟨head, draft.next :: heads⟩ := reserved.new 0
  have atInside : place (draft.next + 1) = ⟨inside, draft.next :: heads⟩ := reserved.new 1
  have atAfter : place (draft.next + 2) = ⟨after, heads⟩ := reserved.new 2
  have toHead : Admits place (draft.reserve 3).next heads head draft.next :=
    admits_forward (by simp) atHead fun _ => List.mem_cons.mp
  have entered := reserved.keeps.goto (reserved.stands stands aboveCurrent) toHead
  have size : ((draft.reserve 3).finish (.goto draft.next)).next = draft.next + 3 := by simp
  generalize (draft.reserve 3).finish (.goto draft.next) = opened at entered size ⊢
  have back : ∀ top, Admits place opened.next (draft.next :: heads) top draft.next :=
    admits_back (by simp [size]) atHead (List.Subset.refl _) List.mem_cons_self
  have toInside : Admits place opened.next (draft.next :: heads) inside (draft.next + 1) :=
    admits_forward (by simp [size]) atInside fun _ => Or.inr
  have toAfter : Admits place opened.next (draft.next :: heads) after (draft.next + 2) :=
    admits_forward (by simp [size]) atAfter fun _ member => Or.inr (List.mem_cons_of_mem _ member)
  have branched := (entered.switchTo draft.next).branch
    (stands_switchTo (by simp [size]) atHead aboveHead) toInside (toAfter.below aboveInside.le)
    condition
  obtain ⟨later, encloses⟩ := (ofBody ⟨draft.next, draft.next + 2⟩).enclose branched
    (by simp [size]) atInside aboveInside
    (by simpa using jumpsAdmitted_some (back after) toAfter)
    (by simpa using back after)
  exact ⟨later, encloses.arranges reserved.same (by simp [size]) (by simp [size]) atAfter afterBelow⟩

/-- A loop with its test at the end finds places: its body is the head that the test goes back to.
-/
theorem arrangeable_doWhile (condition : Expr) {body : Jumps → Draft Leaf Expr → Draft Leaf Expr}
    (ofBody : ∀ jumps, Arrangeable (some jumps) (body jumps)) : Arrangeable jumps? fun draft =>
      ((((body ⟨draft.next + 1, draft.next + 2⟩ (((draft.reserve 3).finish
        (.goto draft.next)).switchTo draft.next)).finish (.goto (draft.next + 1))).switchTo
        (draft.next + 1)).finish (.branch condition draft.next (draft.next + 2))).switchTo
        (draft.next + 2) := by
  intro draft before heads top keeps stands _
  beta_reduce
  obtain ⟨inside, aboveCurrent, insideBelow⟩ := exists_between stands.below
  obtain ⟨check, aboveInside, checkBelow⟩ := exists_between insideBelow
  obtain ⟨after, aboveCheck, afterBelow⟩ := exists_between checkBelow
  obtain ⟨place, reserved⟩ := keeps.reserves [⟨inside, draft.next :: heads⟩,
    ⟨check, draft.next :: heads⟩, ⟨after, heads⟩]
  have atInside : place draft.next = ⟨inside, draft.next :: heads⟩ := reserved.new 0
  have atCheck : place (draft.next + 1) = ⟨check, draft.next :: heads⟩ := reserved.new 1
  have atAfter : place (draft.next + 2) = ⟨after, heads⟩ := reserved.new 2
  have toInside : Admits place (draft.reserve 3).next heads inside draft.next :=
    admits_forward (by simp) atInside fun _ => List.mem_cons.mp
  have entered := reserved.keeps.goto (reserved.stands stands aboveCurrent) toInside
  have size : ((draft.reserve 3).finish (.goto draft.next)).next = draft.next + 3 := by simp
  generalize (draft.reserve 3).finish (.goto draft.next) = opened at entered size ⊢
  have back : ∀ top, Admits place opened.next (draft.next :: heads) top draft.next :=
    admits_back (by simp [size]) atInside (List.Subset.refl _) List.mem_cons_self
  have toCheck : Admits place opened.next (draft.next :: heads) check (draft.next + 1) :=
    admits_forward (by simp [size]) atCheck fun _ => Or.inr
  have toAfter : Admits place opened.next (draft.next :: heads) after (draft.next + 2) :=
    admits_forward (by simp [size]) atAfter fun _ member => Or.inr (List.mem_cons_of_mem _ member)
  obtain ⟨later, encloses⟩ := (ofBody ⟨draft.next + 1, draft.next + 2⟩).enclose entered
    (by simp [size]) atInside aboveInside
    (jumpsAdmitted_some toCheck (toAfter.below aboveCheck.le)) toCheck
  have branched := (encloses.keeps.switchTo (draft.next + 1)).branch
    (stands_switchTo (lt_of_lt_of_le (by simp [size]) encloses.size_le)
      ((encloses.same _ (by simp [size])).trans atCheck) aboveCheck)
    (encloses.admits (back after)) (encloses.admits toAfter) condition
  have whole := Encloses.trans encloses ⟨fun _ _ => rfl, by simp, branched⟩
  exact ⟨later, whole.arranges reserved.same (by simp [size]) (by simp [size]) atAfter afterBelow⟩

theorem arrangeable_updates (updates : List Expr) (jumps? : Option Jumps) :
    Arrangeable jumps? fun draft : Draft Leaf Expr =>
      updates.foldl (fun draft expr => draft.push (.update expr)) draft := by
  induction updates with
  | nil => exact arrangeable_same
  | cons expr rest ih => exact (arrangeable_push (.update expr)).seq ih

/-- The head of a loop with a condition goes inside or leaves the loop. -/
def leaveHead (condition? : Option Expr) (inside after : BlockId) : Terminator Expr :=
  match condition? with
  | some condition => .branch condition inside after
  | none => .goto inside

/-- A for loop finds places: its updates go back to its condition. -/
theorem arrangeable_for (condition? : Option Expr) (updates : List Expr)
    {body : Jumps → Draft Leaf Expr → Draft Leaf Expr}
    (ofBody : ∀ jumps, Arrangeable (some jumps) (body jumps)) : Arrangeable jumps? fun draft =>
      ((updates.foldl (fun draft expr => draft.push (.update expr))
        (((body ⟨draft.next + 2, draft.next + 3⟩ (((((draft.reserve 4).finish
          (.goto draft.next)).switchTo draft.next).finish
          (leaveHead condition? (draft.next + 1) (draft.next + 3))).switchTo
          (draft.next + 1))).finish (.goto (draft.next + 2))).switchTo (draft.next + 2))).finish
        (.goto draft.next)).switchTo (draft.next + 3) := by
  intro draft before heads top keeps stands _
  beta_reduce
  obtain ⟨head, aboveCurrent, headBelow⟩ := exists_between stands.below
  obtain ⟨inside, aboveHead, insideBelow⟩ := exists_between headBelow
  obtain ⟨step, aboveInside, stepBelow⟩ := exists_between insideBelow
  obtain ⟨after, aboveStep, afterBelow⟩ := exists_between stepBelow
  obtain ⟨place, reserved⟩ := keeps.reserves [⟨head, draft.next :: heads⟩,
    ⟨inside, draft.next :: heads⟩, ⟨step, draft.next :: heads⟩, ⟨after, heads⟩]
  have atHead : place draft.next = ⟨head, draft.next :: heads⟩ := reserved.new 0
  have atInside : place (draft.next + 1) = ⟨inside, draft.next :: heads⟩ := reserved.new 1
  have atStep : place (draft.next + 2) = ⟨step, draft.next :: heads⟩ := reserved.new 2
  have atAfter : place (draft.next + 3) = ⟨after, heads⟩ := reserved.new 3
  have toHead : Admits place (draft.reserve 4).next heads head draft.next :=
    admits_forward (by simp) atHead fun _ => List.mem_cons.mp
  have entered := reserved.keeps.goto (reserved.stands stands aboveCurrent) toHead
  have size : ((draft.reserve 4).finish (.goto draft.next)).next = draft.next + 4 := by simp
  generalize (draft.reserve 4).finish (.goto draft.next) = opened at entered size ⊢
  have back : ∀ top, Admits place opened.next (draft.next :: heads) top draft.next :=
    admits_back (by simp [size]) atHead (List.Subset.refl _) List.mem_cons_self
  have toInside : Admits place opened.next (draft.next :: heads) inside (draft.next + 1) :=
    admits_forward (by simp [size]) atInside fun _ => Or.inr
  have toStep : Admits place opened.next (draft.next :: heads) step (draft.next + 2) :=
    admits_forward (by simp [size]) atStep fun _ => Or.inr
  have toAfter : Admits place opened.next (draft.next :: heads) after (draft.next + 3) :=
    admits_forward (by simp [size]) atAfter fun _ member => Or.inr (List.mem_cons_of_mem _ member)
  have atStart : (opened.switchTo draft.next).Stands place (draft.next :: heads) inside :=
    stands_switchTo (by simp [size]) atHead aboveHead
  have left : ((opened.switchTo draft.next).finish
      (leaveHead condition? (draft.next + 1) (draft.next + 3))).Keeps place := by
    cases condition? with
    | none => exact (entered.switchTo _).goto atStart toInside
    | some condition =>
        exact (entered.switchTo _).branch atStart toInside
          (toAfter.below (aboveInside.trans aboveStep).le) condition
  obtain ⟨middle, inBody⟩ := (ofBody ⟨draft.next + 2, draft.next + 3⟩).enclose left
    (by simp [size]) atInside aboveInside
    (by simpa using jumpsAdmitted_some toStep (toAfter.below aboveStep.le))
    (by simpa using toStep)
  obtain ⟨later, inStep⟩ := (arrangeable_updates updates none).enclose inBody.keeps
    (lt_of_lt_of_le (by simp [size]) inBody.size_le) ((inBody.same _ (by simp [size])).trans atStep)
    aboveStep (fun _ none => by cases none) (inBody.admits (by simpa using back after))
  exact ⟨later, (inBody.trans inStep).arranges reserved.same (by simp [size]) (by simp [size])
    atAfter afterBelow⟩

/-- The bodies of the arms fill consecutive blocks that are placed. -/
def ArmsArrangeable (count : Nat)
    (operation : Jumps → BlockId → Draft Leaf Expr → Draft Leaf Expr) : Prop :=
  ∀ (jumps : Jumps) (block : Nat) draft place heads rank top, draft.Keeps place →
    (∀ index : Nat, index < count →
      block + index < draft.next ∧ place (block + index) = ⟨rank, heads⟩) → rank < top →
    JumpsAdmitted place draft.next heads top (some jumps) →
    ∃ later, Encloses place draft (operation jumps block draft) later

theorem armsArrangeable_nil :
    ArmsArrangeable 0 fun _ _ (draft : Draft Leaf Expr) => draft :=
  fun _ _ _ place _ _ _ keeps _ _ _ => ⟨place, fun _ _ => rfl, Nat.le_refl _, keeps⟩

/-- The arms of a switch find places one after the other. -/
theorem armsArrangeable_cons {count : Nat} {body : Jumps → Draft Leaf Expr → Draft Leaf Expr}
    {rest : Jumps → BlockId → Draft Leaf Expr → Draft Leaf Expr}
    (ofBody : ∀ jumps, Arrangeable (some jumps) (body jumps)) (ofRest : ArmsArrangeable count rest) :
    ArmsArrangeable (count + 1) fun jumps block draft =>
      rest jumps (block + 1) ((body jumps (draft.switchTo block)).finish (.goto jumps.breakTo)) := by
  intro jumps block draft place heads rank top keeps placed below admitted
  obtain ⟨inside, atBlock⟩ := placed 0 (Nat.succ_pos count)
  obtain ⟨middle, inBody⟩ := (ofBody jumps).enclose keeps inside atBlock below admitted
    (admitted jumps rfl).2
  obtain ⟨later, inRest⟩ := ofRest jumps (block + 1) _ middle heads rank top inBody.keeps
    (fun index isArm => by
      obtain ⟨inside, atIndex⟩ := placed (index + 1) (Nat.succ_lt_succ isArm)
      rw [Nat.add_assoc, Nat.add_comm 1 index]
      exact ⟨lt_of_lt_of_le inside inBody.size_le, (inBody.same _ inside).trans atIndex⟩)
    below (inBody.jumps admitted)
  exact ⟨later, inBody.trans inRest⟩

/-- A switch leads to its arms and to what comes after it. -/
theorem target_of_switch {scrutinee : Expr} {first after : Nat} {patterns : List (Option Pattern)}
    {edge : BlockId × EdgeKind}
    (isEdge : edge ∈ (Terminator.switch scrutinee
      (switchTargets first after patterns)).successors) :
    edge.1 = after ∨ ∃ index < patterns.length, edge.1 = first + index := by
  obtain ⟨⟨arm, way⟩, inTargets, rfl⟩ := List.mem_map.mp isEdge
  have isTarget := List.fst_mem_of_mem_zipIdx inTargets
  rcases List.mem_append.mp isTarget with isArm | isOtherwise
  · obtain ⟨⟨pattern?, index⟩, inPatterns, rfl⟩ := List.mem_map.mp isArm
    exact Or.inr ⟨index, List.snd_lt_of_mem_zipIdx inPatterns, rfl⟩
  · split at isOtherwise
    · obtain rfl := List.mem_singleton.mp isOtherwise
      exact Or.inl rfl
    · cases isOtherwise

/-- Where a jump to the next round of a loop leads from the arm of a switch. -/
def continueFrom (jumps? : Option Jumps) (after : BlockId) : BlockId :=
  match jumps? with
  | some jumps => jumps.continueTo
  | none => after

/-- A switch finds places: the arms in their order, then what follows. -/
theorem arrangeable_switch (scrutinee : Expr) {patterns : List (Option Pattern)} {count : Nat}
    (sameCount : patterns.length = count)
    {arms : Jumps → BlockId → Draft Leaf Expr → Draft Leaf Expr}
    (ofArms : ArmsArrangeable count arms) : Arrangeable jumps? fun draft =>
      (arms ⟨continueFrom jumps? draft.next, draft.next⟩ (draft.next + 1)
        ((draft.reserve (count + 1)).finish (.switch scrutinee
          (switchTargets (draft.next + 1) draft.next patterns)))).switchTo draft.next := by
  subst sameCount
  intro draft before heads top keeps stands admitted
  beta_reduce
  obtain ⟨inside, aboveCurrent, insideBelow⟩ := exists_between stands.below
  obtain ⟨after, aboveInside, afterBelow⟩ := exists_between insideBelow
  obtain ⟨place, reserved⟩ := keeps.reserves
    (⟨after, heads⟩ :: List.replicate patterns.length ⟨inside, heads⟩)
  have atAfter : place draft.next = ⟨after, heads⟩ := reserved.new 0
  have atArm : ∀ index : Nat, index < patterns.length →
      place (draft.next + 1 + index) = ⟨inside, heads⟩ := by
    intro index isArm
    rw [Nat.add_assoc, Nat.add_comm 1 index, reserved.new]
    simp [isArm]
  have stands := reserved.stands stands aboveCurrent
  have keeps := reserved.keeps
  rw [List.length_cons, List.length_replicate] at stands keeps
  have size : (draft.reserve (patterns.length + 1)).next = draft.next + (patterns.length + 1) := by
    simp
  have toAfter : Admits place (draft.reserve (patterns.length + 1)).next heads after draft.next :=
    admits_forward (by simp) atAfter fun _ => Or.inr
  have insideArm : ∀ index : Nat, index < patterns.length →
      draft.next + 1 + index < (draft.reserve (patterns.length + 1)).next := by
    intro index isArm
    rw [next_reserve, Nat.add_assoc, Nat.add_comm 1 index]
    exact Nat.add_lt_add_left (Nat.succ_lt_succ isArm) _
  have entered : ((draft.reserve (patterns.length + 1)).finish (.switch scrutinee
      (switchTargets (draft.next + 1) draft.next patterns))).Keeps place := by
    apply keeps.finish
    intro edge isEdge
    apply stands.edge
    rcases target_of_switch isEdge with same | ⟨index, isArm, same⟩
    · rw [same]
      exact toAfter.below aboveInside.le
    · rw [same]
      exact admits_forward (insideArm index isArm) (atArm index isArm) fun _ => Or.inr
  have admitted := admitted.weaken reserved.same
    (by simp : draft.next ≤ (draft.reserve (patterns.length + 1)).next) (List.Subset.refl _)
    afterBelow.le
  have jumpsOfArms : JumpsAdmitted place (draft.reserve (patterns.length + 1)).next heads after
      (some ⟨continueFrom jumps? draft.next, draft.next⟩) := by
    apply jumpsAdmitted_some _ toAfter
    cases jumps? with
    | none => exact toAfter
    | some jumps => exact (admitted jumps rfl).1
  obtain ⟨later, inArms⟩ := ofArms _ (draft.next + 1) _ place heads inside after entered
    (fun index isArm => ⟨by simpa using insideArm index isArm, atArm index isArm⟩) aboveInside
    (by simpa using jumpsOfArms)
  exact ⟨later, inArms.arranges reserved.same (by simp) (by simp) atAfter afterBelow⟩

end Statements

section Trees

mutual

/-- The lowering of a statement finds places for its blocks. -/
theorem lower_arrangeable : ∀ (stmt : Stmt Leaf Expr) (jumps? : Option Jumps),
    Arrangeable jumps? (lower jumps? stmt)
  | .simple leaf, _ => by
      simpa only [lower] using arrangeable_push (.simple leaf)
  | .empty, _ => by
      simp only [lower]
      exact arrangeable_same
  | .block stmts, jumps? => by
      simpa only [lower] using lowerAll_arrangeable stmts jumps?
  | .ifElse condition thenBranch none, jumps? => by
      simpa only [lower] using arrangeable_if condition (lower_arrangeable thenBranch jumps?)
  | .ifElse condition thenBranch (some elseBranch), jumps? => by
      simpa only [lower] using arrangeable_ifElse condition (lower_arrangeable thenBranch jumps?)
        (lower_arrangeable elseBranch jumps?)
  | .whileLoop condition body, _ => by
      simpa only [lower] using
        arrangeable_while condition fun jumps => lower_arrangeable body (some jumps)
  | .doWhile body condition, _ => by
      simpa only [lower] using
        arrangeable_doWhile condition fun jumps => lower_arrangeable body (some jumps)
  | .forLoop init condition? updates body, jumps? => by
      have loops := (lowerAll_arrangeable init jumps?).seq
        (arrangeable_for condition? updates fun jumps => lower_arrangeable body (some jumps))
      cases condition? <;> (simp only [lower]; exact loops)
  | .switch scrutinee arms, jumps? => by
      simp only [lower]
      exact arrangeable_switch scrutinee (List.length_map Arm.pattern?) (lowerArms_arrangeable arms)
  | .breakOut, none => by
      simpa only [lower] using arrangeable_jump fun _ isEdge => by cases isEdge
  | .breakOut, some jumps => by
      simpa only [lower] using arrangeable_jump fun _ isEdge =>
        ⟨jumps, rfl, Or.inr (congrArg Prod.fst (List.mem_singleton.mp isEdge))⟩
  | .continueLoop, none => by
      simpa only [lower] using arrangeable_jump fun _ isEdge => by cases isEdge
  | .continueLoop, some jumps => by
      simpa only [lower] using arrangeable_jump fun _ isEdge =>
        ⟨jumps, rfl, Or.inl (congrArg Prod.fst (List.mem_singleton.mp isEdge))⟩
  | .returnValue _ _, _ => by
      simpa only [lower] using arrangeable_jump fun _ isEdge => by cases isEdge
  | .throwValue _, _ => by
      simpa only [lower] using arrangeable_jump fun _ isEdge => by cases isEdge
termination_by structural stmt => stmt

/-- All statements of a block find places. -/
theorem lowerAll_arrangeable : ∀ (stmts : List (Stmt Leaf Expr)) (jumps? : Option Jumps),
    Arrangeable jumps? (lowerAll jumps? stmts)
  | [], _ => by
      simp only [lowerAll]
      exact arrangeable_same
  | stmt :: rest, jumps? => by
      simp only [lowerAll]
      exact (lower_arrangeable stmt jumps?).seq (lowerAll_arrangeable rest jumps?)
termination_by structural stmts => stmts

/-- All arms of a switch find places. -/
theorem lowerArms_arrangeable : ∀ arms : List (Arm (Stmt Leaf Expr)),
    ArmsArrangeable arms.length fun jumps block => lowerArms jumps block arms
  | [] => by
      simp only [lowerArms]
      exact armsArrangeable_nil
  | ⟨_, body⟩ :: rest => by
      simp only [lowerArms]
      exact armsArrangeable_cons (fun jumps => lowerAll_arrangeable body (some jumps))
        (lowerArms_arrangeable rest)
termination_by structural arms => arms

end

/-- The graph of a statement tree is structured. -/
theorem FlowGraph.ofStmt_structured (root : Stmt Leaf Expr) :
    ∃ place, (FlowGraph.ofStmt root).Structured place := by
  have fresh : (Draft.start : Draft Leaf Expr).Keeps fun _ => ⟨0, []⟩ := by
    intro source block found edge isEdge
    cases source with
    | zero =>
        obtain rfl := Option.some.inj found
        cases isEdge
    | succ source => cases found
  have stands : (Draft.start : Draft Leaf Expr).Stands (fun _ => ⟨0, []⟩) [] 1 :=
    ⟨Nat.one_pos, rfl, one_pos⟩
  obtain ⟨place, arranged⟩ := lower_arrangeable root none .start _ [] 1 fresh stands
    fun _ none => by cases none
  have keeps : ((lower none root .start).finish .exit).Keeps place :=
    arranged.keeps.finish fun _ isEdge => by cases isEdge
  have edges : ∀ {source : Nat} {edge : BlockId × EdgeKind},
      edge ∈ (ofStmt root).successors source →
        edge.1 < (ofStmt root).blocks.size ∧ Joins place source edge.1 := by
    intro source edge isEdge
    cases found : (ofStmt root).blocks[source]? with
    | none =>
        rw [successors, found] at isEdge
        cases isEdge
    | some block =>
        rw [successors, found] at isEdge
        exact keeps source block found edge isEdge
  refine ⟨place, ?_, ?_, fun isEdge => (edges isEdge).1, fun isEdge => (edges isEdge).2⟩
  · have size_le : 1 ≤ (lower none root .start).next := arranged.size_le
    have size : ((lower none root .start).finish .exit).next = _ := next_finish _ _
    exact lt_of_lt_of_eq size_le size.symm
  · rw [arranged.same entry Nat.one_pos]

/-- The graph of a value has one block. -/
theorem FlowGraph.ofValue_structured (value : Expr) (span : Span) :
    (FlowGraph.ofValue value span : FlowGraph Leaf Expr).Structured fun _ => ⟨0, []⟩ := by
  have noEdge : ∀ {source : Nat} {edge : BlockId × EdgeKind},
      edge ∉ (FlowGraph.ofValue value span : FlowGraph Leaf Expr).successors source := by
    intro source edge isEdge
    cases source <;> cases isEdge
  exact ⟨Nat.one_pos, rfl, fun isEdge => absurd isEdge noEdge, fun isEdge => absurd isEdge noEdge⟩

end Trees

end NullFlow
