/-!
Marks and states. Declarations put a nullability mark on every type reference. The analysis knows
of a value, at one point of a program, whether it may be null. The two states form a lattice in
which `maybeNull` is the top.
-/

namespace NullFlow

/-- The nullability that a type reference declares. -/
inductive Mark where
  /-- A plain type in annotated code. Its values are not null. -/
  | plain
  /-- A type with a question mark. -/
  | nullable
  /-- A type whose value was found not to be null, such as a new object. -/
  | notNullable
  /-- A type from code without marks. -/
  | oblivious
deriving DecidableEq

namespace Mark

/-- Two marks agree if they promise the same. An oblivious one agrees with all. -/
def agrees : Mark → Mark → Bool
  | .oblivious, _ => true
  | _, .oblivious => true
  | .nullable, .nullable => true
  | .nullable, _ => false
  | _, .nullable => false
  | _, _ => true

/-- The question mark that a nullable type shows. -/
def text : Mark → String
  | .nullable => "?"
  | _ => ""

end Mark

/-- What the analysis knows of a value: that it is not null, or nothing. -/
inductive FlowState where
  | notNull
  | maybeNull
deriving DecidableEq

namespace FlowState

/-- The least state that covers both states. -/
def join : FlowState → FlowState → FlowState
  | .notNull, state => state
  | .maybeNull, _ => .maybeNull

/-- A state of less knowledge is above. -/
instance : LE FlowState := ⟨fun lower upper => lower.join upper = upper⟩

instance (lower upper : FlowState) : Decidable (lower ≤ upper) :=
  inferInstanceAs (Decidable (lower.join upper = upper))

/-- The join of states of which some may be absent. An absent state is below all others. -/
def joinOptional : Option FlowState → Option FlowState → Option FlowState
  | none, state => state
  | state, none => state
  | some first, some second => some (first.join second)

/-- The join of a list of states. The join of none is `notNull`. -/
def joinAll (states : List FlowState) : FlowState := states.foldl join .notNull

def isMaybeNull : FlowState → Bool
  | .notNull => false
  | .maybeNull => true

/-- The state of a value of which only its declared mark is known. -/
def ofMark : Mark → FlowState
  | .plain => .notNull
  | .notNullable => .notNull
  | .nullable => .maybeNull
  | .oblivious => .maybeNull

/-- The mark of a value known to be in the state. -/
def mark : FlowState → Mark
  | .notNull => .notNullable
  | .maybeNull => .nullable

end FlowState
end NullFlow
