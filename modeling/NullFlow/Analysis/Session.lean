import NullFlow.ClassTable
import NullFlow.Diagnostic.Basic
import NullFlow.Store.Basic
/-!
The state of one analysis: the slots found so far, the recorder, and a frame for the method and
for every lambda around the current point.
-/

namespace NullFlow

structure Options where
  /-- Passes over one body before slots that still change are widened. -/
  maxIterations : Nat
  reportHints : Bool

def Options.default : Options := ⟨100, true⟩

/-- Lets a caller stop an analysis at any time. A flag that is set stays set, so what an analysis
sees of it is the first of its checks that finds it set, if one does. -/
structure CancellationToken where
  stopsAt? : Option Nat

namespace CancellationToken

/-- The flag that nobody touches during the analysis. -/
@[coe]
def steady (isSet : Bool) : CancellationToken := ⟨if isSet then some 0 else none⟩

instance : Coe Bool CancellationToken := ⟨steady⟩

/-- What the flag says once it was checked a number of times. -/
def isCancelled (token : CancellationToken) (checks : Nat) : Bool :=
  token.stopsAt?.any fun first => first ≤ checks

end CancellationToken

/-- What stays the same throughout the analysis of one method. -/
structure Context where
  classes : ClassTable
  method : String
  thisType? : Option Ty
  options : Options
  token : CancellationToken

/-- A returned value: its state and its type, if that is known. -/
structure Returned where
  state : FlowState
  ty? : Option Ty

/-- The returns seen in one body. -/
structure Frame where
  expected? : Option Ty
  returns : List Returned

structure Session where
  slots : SlotTable
  recorder : Recorder
  /-- The frames of the bodies around the current point, the innermost first. -/
  frames : List Frame
  /-- A lambda was left early because the caller wants the analysis to stop. -/
  cancelled : Bool
  /-- How often the token was checked so far. -/
  checks : Nat

namespace Session

/-- The analysis has to stop. -/
def mustStop (session : Session) (token : CancellationToken) : Bool :=
  session.cancelled || token.isCancelled session.checks

/-- The session once the token was checked. -/
def checked (session : Session) : Session := { session with checks := session.checks + 1 }

end Session

abbrev Analysis := StateM Session

namespace Analysis

def slots : Analysis SlotTable := fun session => (session.slots, session)

/-- Runs an action on the slot table. -/
def onSlots {Result : Type} (action : StateM SlotTable Result) : Analysis Result := fun session =>
  let (result, slots) := action session.slots
  (result, { session with slots })

def emit (diagnostic : Diagnostic) : Analysis Unit :=
  modify fun session => { session with recorder := session.recorder.emit diagnostic }

/-- Mutes the recorder or lets it speak. The answer tells whether it was mute. -/
def mute (muted : Bool) : Analysis Bool := fun session =>
  (session.recorder.muted, { session with recorder := { session.recorder with muted } })

/-- The innermost frame. Code outside all bodies expects nothing. -/
def frame : Analysis Frame := fun session => (session.frames.headD ⟨none, []⟩, session)

/-- Changes the returns of the innermost frame. -/
def modifyReturns (change : List Returned → List Returned) : Analysis Unit :=
  modify fun session =>
    match session.frames with
    | [] => { session with frames := [⟨none, change []⟩] }
    | top :: rest => { session with frames := { top with returns := change top.returns } :: rest }

def clearReturns : Analysis Unit := modifyReturns fun _ => []

def addReturn (returned : Returned) : Analysis Unit :=
  modifyReturns fun returns => returns ++ [returned]

def pushFrame (expected? : Option Ty) : Analysis Unit :=
  modify fun session => { session with frames := ⟨expected?, []⟩ :: session.frames }

/-- Leaves the innermost body. -/
def popFrame : Analysis Frame := fun session =>
  (session.frames.headD ⟨none, []⟩, { session with frames := session.frames.tail })

/-- Checks whether the analysis has to stop. -/
def mustStop (context : Context) : Analysis Bool := fun session =>
  (session.mustStop context.token, session.checked)

def cancel : Analysis Unit := modify fun session => { session with cancelled := true }

end Analysis
end NullFlow
