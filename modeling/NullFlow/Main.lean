import NullFlow.CommandLine.Execution
/-!
The command line of the program.
-/

namespace NullFlow

def usage : String :=
  "Nullable flow analysis over lowered method bodies\n\n" ++
  "Usage: nullguard check [OPTIONS] <INPUTS>...\n" ++
  "       nullguard explain <RULE>\n" ++
  "       nullguard init\n\n" ++
  "Options of check:\n" ++
  "  --format <human|json>      The form of the report\n" ++
  "  --severity <SEVERITY>      The lowest severity to report: hint, warning\n" ++
  "  --max-diagnostics <COUNT>  The most diagnostics to report, 0 for no limit\n" ++
  "  --no-hints                 Do not report `??` operands that are never null\n" ++
  "  --max-iterations <COUNT>   Passes per method before unstable variables are widened\n" ++
  "  --no-color                 Do not color the report\n"

/-- The files and the clock of this machine. -/
def localHost : Host IO where
  read path := do
    match ← (IO.FS.readBinFile path).toBaseIO with
    | .ok bytes =>
        match String.fromUTF8? bytes with
        | some content => return .text content
        | none => return .unreadable
    | .error (.permissionDenied ..) => return .unreadable
    | .error _ => return .missing
  create path content := do
    match ← (IO.FS.Handle.mk path .writeNew).toBaseIO with
    | .ok handle => do
        handle.putStr content
        return true
    | .error (.alreadyExists ..) => return false
    | .error error => throw error
  folders := do
    let parts := (← IO.currentDir).toString.splitOn "/"
    return (List.range parts.length).map fun dropped =>
      let folder := "/".intercalate (parts.take (parts.length - dropped))
      if folder.isEmpty then "/" else folder
  milliseconds := IO.monoMsNow

def Response.print (response : Response) : IO UInt32 := do
  IO.print response.output
  IO.eprint response.errors
  return response.code.toUInt32

/-- Does what a request asks for. -/
def Request.perform : Request → IO UInt32
  | .check request => do
      match ← localHost.check request with
      | .ok response => response.print
      | .error failure => (Response.mk 2 "" s!"error: {failure.message}\n").print
  | .explain code => (Response.explain code).print
  | .setUp => do (← localHost.setUp).print
  | .help => (Response.mk 0 usage "").print
  | .version => Response.version.print
  | .unclear => (Response.mk 2 "" usage).print

end NullFlow

def main (arguments : List String) : IO UInt32 := do
  match ← (NullFlow.Request.perform (.ofArguments arguments)).toBaseIO with
  | .ok code => return code
  | .error error => do
      IO.eprintln s!"error: {error}"
      return 2
