import NullFlow.Analysis.Session
import NullFlow.Toml.Document
/-!
The settings of a run, as a settings file gives them and the command line overrides them. Every
section of the file and every setting may be missing, and others may be there.
-/

namespace NullFlow

structure Settings where
  /-- The name of the lowest severity to report. -/
  threshold : String
  /-- The most diagnostics to report. Zero sets no limit. -/
  maxDiagnostics : Nat
  maxIterations : Nat
  reportHints : Bool
  /-- The methods to analyze at a time. Zero leaves it to the machine. No result depends on it. -/
  jobs : Nat

/-- The severity of the name. A name that is unknown lets everything through. -/
def Severity.ofName (name : String) : Severity := if name = "warning" then .warning else .hint

namespace Settings

def default : Settings where
  threshold := "hint"
  maxDiagnostics := 0
  maxIterations := Options.default.maxIterations
  reportHints := Options.default.reportHints
  jobs := 0

/-- The lowest severity to report. -/
def severity (settings : Settings) : Severity := .ofName settings.threshold

def options (settings : Settings) : Options := ⟨settings.maxIterations, settings.reportHints⟩

def fileName : String := "nullguard.toml"

/-- The settings file that a new project starts with. It says what holds without one. -/
def defaultFile : String :=
  "[nullguard]\n" ++
  "severity_threshold = \"hint\"   # hint | warning\n" ++
  "max_diagnostics = 0           # 0 = unlimited\n" ++
  "\n" ++
  "[analysis]\n" ++
  "max_iterations = 100          # fixpoint passes per method\n" ++
  "report_hints = true           # report `??` operands that are never null\n" ++
  "jobs = 0                      # 0 = one worker per core\n"

/-- Access to the settings of a section by their names. -/
abbrev Section := String → Option Toml

/-- The settings of a section by their names. -/
def Section.ofEntries (entries : Toml.Entries) : Section := fun name => entries.lookup name

/-- A section of settings with the names. It may be a table, or an array that lists the settings in
order. A date names none of them. -/
def section? (names : List String) : Toml → Option Section
  | .table _ entries => some (.ofEntries entries)
  | .inline entries => some (.ofEntries entries)
  | .array items => some (.ofEntries (names.zip items))
  | .tables entries => some (.ofEntries (names.zip (entries.reverse.map Toml.inline)))
  | .moment => some (.ofEntries [])
  | _ => none

/-- The section of the name. A file without it has the settings of an empty one. -/
def sectionOf? (entries : Toml.Entries) (name : String) (names : List String) : Option Section :=
  match entries.lookup name with
  | some value => section? names value
  | none => some (.ofEntries [])

/-- The setting of the name, or the default. -/
def setting? {Value : Type} (given : Section) (name : String) (default : Value)
    (decode : Toml → Option Value) : Option Value :=
  match given name with
  | some value => decode value
  | none => some default

def asText? : Toml → Option String
  | .string text => some text
  | _ => none

def asCount? : Toml → Option Nat
  | .integer (.ofNat value) => some value
  | _ => none

def asSwitch? : Toml → Option Bool
  | .boolean value => some value
  | _ => none

/-- The settings of a file, unless its text is wrong or a setting has the wrong shape. -/
def ofFile? (text : String) : Option Settings := do
  let entries ← Toml.parse? text
  let reporting ← sectionOf? entries "nullguard" ["severity_threshold", "max_diagnostics"]
  let analysis ← sectionOf? entries "analysis" ["max_iterations", "report_hints", "jobs"]
  return {
    threshold := ← setting? reporting "severity_threshold" default.threshold asText?
    maxDiagnostics := ← setting? reporting "max_diagnostics" default.maxDiagnostics asCount?
    maxIterations := ← setting? analysis "max_iterations" default.maxIterations asCount?
    reportHints := ← setting? analysis "report_hints" default.reportHints asSwitch?
    jobs := ← setting? analysis "jobs" default.jobs asCount? }

end Settings
end NullFlow
