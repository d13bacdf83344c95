import NullFlow.Analysis.Rules
/-!
The analysis of one method.
-/

namespace NullFlow

/-- The outcome of the analysis of a method. -/
structure MethodAnalysis where
  diagnostics : List Diagnostic
  /-- The join of all returned values, if there are any. -/
  returnState? : Option FlowState
  /-- The passes over the body. Those over lambdas do not count. -/
  iterations : Nat
  converged : Bool
deriving DecidableEq

/-- The analysis of the method was stopped. -/
structure Cancelled where
  method : String
deriving DecidableEq

/-- The session in which a body is analyzed that returns values of a type. -/
def Session.start (returnType : Ty) (options : Options) : Session where
  slots := .empty
  recorder := .start options.reportHints
  frames := [⟨if returnType.isVoid then none else some returnType, []⟩]
  cancelled := false
  checks := 0

/-- What is known of a method after its body was analyzed. Nothing is, if the analysis was stopped. -/
def MethodAnalysis.ofRun? (token : CancellationToken) (solution? : Option Solution)
    (session : Session) : Option MethodAnalysis :=
  match solution? with
  | none => none
  | some solution =>
      if session.mustStop token then none
      else
        some {
          diagnostics := session.recorder.finish
          returnState? := (session.frames.headD ⟨none, []⟩).returns.foldl
            (fun state? returned => FlowState.joinOptional state? (some returned.state)) none
          iterations := solution.iterations
          converged := solution.converged }

namespace Method

variable (method : Method) (classes : ClassTable) (options : Options) (token : CancellationToken)

def context : Context := ⟨classes, method.name, method.thisType?, options, token⟩

/-- The session in which the body is analyzed. -/
def session : Session := .start method.returnType options

def graph : MeaningGraph := Code.graph (method.context classes options token) method.code

/-- Runs the analysis. The answer is the solution, if it was not stopped, and the last session. -/
def run : Option Solution × Session :=
  (method.graph classes options token).analyze
    (method.context classes options token) Store.entry (method.session options)

/-- Analyzes a method. There is no answer if the analysis was stopped. -/
def analyze : Option MethodAnalysis :=
  let (solution?, session) := method.run classes options token
  MethodAnalysis.ofRun? token solution? session

/-- Analyzes a method until a token, if there is one, asks to stop. -/
def analyzeUntil (token? : Option CancellationToken) : Except Cancelled MethodAnalysis :=
  match method.analyze classes options (token?.getD (.steady false)) with
  | some analysis => .ok analysis
  | none => .error ⟨method.name⟩

/-- Analyzes a method that nobody stops. -/
def analyzeToEnd : MethodAnalysis :=
  match method.analyzeUntil classes options none with
  | .ok analysis => analysis
  | .error _ => ⟨[], none, 0, false⟩

end Method
end NullFlow
