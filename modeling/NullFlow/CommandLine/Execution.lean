import NullFlow.Catalogue
import NullFlow.CommandLine.Arguments
import NullFlow.Report.Format
import NullFlow.Run
import NullFlow.Settings
/-!
The execution of commands: which files a command reads and writes, what it prints, and the code with
which it ends.
-/

namespace NullFlow

/-- What stands under the name of a file. -/
inductive FileContent where
  /-- There is no file of the name. -/
  | missing
  /-- There is one that cannot be read as text. -/
  | unreadable
  | text (content : String)

def FileContent.text? : FileContent → Option String
  | text content => some content
  | _ => none

/-- What commands need of the machine that they run on. -/
structure Host (m : Type → Type) where
  read : String → m FileContent
  /-- Writes a new file, unless something of the name is there. The answer tells whether it did. -/
  create : String → String → m Bool
  /-- The working directory and the directories around it, the innermost first. -/
  folders : m (List String)
  milliseconds : m Nat

/-- Why a command fails. -/
inductive Failure where
  | settings (path : String)
  | severity (name : String)
  | unreadable (path : String)
  | json (fault : JsonFault)
  | run (error : RunError)

namespace Failure

/-- What failed. -/
def heading : Failure → String
  | settings path => s!"invalid {path}: "
  | severity name => s!"unknown severity `{name}` (expected hint or warning)"
  | unreadable path => s!"failed to read {path}: "
  | json _ => "invalid input JSON: "
  | run error => error.message

/-- Why it failed, where that is not clear yet. -/
def detail : Failure → String
  | settings _ => "this is no TOML, or a setting has the wrong shape"
  | severity _ => ""
  | unreadable _ => "this is no text file"
  | json .syntaxError => "syntax error"
  | json .incomplete => "unexpected end of the text"
  | json .wrongShape => "a value has the wrong shape"
  | run _ => ""

def message (failure : Failure) : String := failure.heading ++ failure.detail

end Failure

/-- What a command prints, and the code with which it ends. -/
structure Response where
  code : Nat
  output : String
  errors : String

/-- The name and the version of the program. -/
def Response.version : Response := ⟨0, "nullguard 0.1.0\n", ""⟩

/-- The explanation of the rule of a code. -/
def Response.explain (code : String) : Response :=
  match Rule.find? code with
  | some rule => ⟨0, rule.text, ""⟩
  | none =>
      let known := ", ".intercalate (Rule.all.map Rule.code)
      ⟨2, "", s!"Unknown rule: {code}. Known rules: {known}\n"⟩

namespace Outcome

/-- The code of a run. It tells whether the report shows a warning. -/
def code (outcome : Outcome) : Nat := if outcome.summary.reaches .warning then 1 else 0

/-- The notices on methods of which the analysis stopped early. -/
def notices (outcome : Outcome) : String :=
  String.join <| outcome.unconverged.map fun method =>
    s!"warning: flow analysis of `{method}` did not converge; results are widened\n"

/-- The report in the form that a request wants. -/
def report (outcome : Outcome) (request : CheckRequest) (settings : Settings)
    (source? : String → Option String) : String :=
  match request.form? with
  | some .json => Report.json outcome.diagnostics outcome.summary ++ "\n"
  | _ =>
      let dropped := outcome.summary.truncated
      let limit := settings.maxDiagnostics
      Report.text (!request.noColor) source? outcome.diagnostics ++
        if dropped = 0 then ""
        else s!"{dropped} more diagnostic(s) not shown (max_diagnostics = {limit})\n"

end Outcome

namespace CheckRequest

/-- The settings of the request over those of the settings file. -/
def settings (request : CheckRequest) (given : Settings) : Except Failure Settings := do
  let threshold ←
    match request.severity? with
    | none => .ok given.threshold
    | some name => if ["hint", "warning"].contains name then .ok name else .error (.severity name)
  return { given with
    threshold
    maxDiagnostics := request.maxDiagnostics?.getD given.maxDiagnostics
    maxIterations := request.maxIterations?.getD given.maxIterations
    reportHints := given.reportHints && !request.noHints }

end CheckRequest

namespace Host

variable {m : Type → Type} [Monad m] (host : Host m)

/-- The settings in the first of the directories that has a settings file. A file that cannot be
read counts as an empty one. -/
def findSettings : List String → m (Except Failure Settings)
  | [] => return .ok .default
  | folder :: outer => do
      let path := if folder.endsWith "/" then folder ++ Settings.fileName
        else folder ++ "/" ++ Settings.fileName
      match ← host.read path with
      | .missing => findSettings outer
      | .unreadable => return .ok .default
      | .text content =>
          match Settings.ofFile? content with
          | some settings => return .ok settings
          | none => return .error (.settings path)

/-- Loads an input from a file. -/
def loadInput (path : String) : m (Except Failure Input) := do
  match ← host.read path with
  | .text content =>
      match Input.load content with
      | .ok input => return .ok input
      | .error (.json fault) => return .error (.json fault)
      | .error (.malformed fault) => return .error (.run (.malformed fault))
  | _ => return .error (.unreadable path)

/-- Loads inputs up to the first that fails. -/
def loadInputs : List String → m (Except Failure (List Input))
  | [] => return .ok []
  | path :: rest => do
      match ← host.loadInput path with
      | .error failure => return .error failure
      | .ok input =>
          match ← loadInputs rest with
          | .error failure => return .error failure
          | .ok inputs => return .ok (input :: inputs)

/-- The sources of the files of a report. -/
def sources (diagnostics : List Diagnostic) : m (String → Option String) := do
  let files := (diagnostics.map fun diagnostic => diagnostic.location.file).eraseDups
  let contents ← files.mapM fun file => do return (file, (← host.read file).text?)
  return fun file => (contents.lookup file).join

/-- Analyzes the files of a request and reports on them. -/
def check (request : CheckRequest) : m (Except Failure Response) := do
  let start ← host.milliseconds
  match (← host.findSettings (← host.folders)).bind request.settings with
  | .error failure => return .error failure
  | .ok settings =>
      match ← host.loadInputs request.inputs with
      | .error failure => return .error failure
      | .ok inputs =>
          match run inputs settings false with
          | .error error => return .error (.run error)
          | .ok outcome => do
              let summary := { outcome.summary with
                milliseconds := (← host.milliseconds) - start }
              let source? ← host.sources outcome.diagnostics
              return .ok {
                code := outcome.code
                output := { outcome with summary }.report request settings source?
                errors := outcome.notices }

/-- Writes the settings file that a project starts with. -/
def setUp : m Response := do
  if ← host.create Settings.fileName Settings.defaultFile then
    return ⟨0, s!"Created {Settings.fileName}\n", ""⟩
  else return ⟨2, "", s!"{Settings.fileName} already exists\n"⟩

end Host
end NullFlow
