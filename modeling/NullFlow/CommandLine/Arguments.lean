/-!
The arguments of the command line and what they ask for.
-/

namespace NullFlow

/-- The form of a report. -/
inductive ReportForm where
  | human
  | json
deriving DecidableEq

/-- A request to analyze files, with the settings that it overrides. -/
structure CheckRequest where
  inputs : List String
  form? : Option ReportForm
  severity? : Option String
  maxDiagnostics? : Option Nat
  maxIterations? : Option Nat
  noHints : Bool
  noColor : Bool
deriving DecidableEq

/-- What the arguments ask for. -/
inductive Request where
  | check (request : CheckRequest)
  | explain (code : String)
  /-- Write a settings file. -/
  | setUp
  | help
  | version
  /-- The arguments make no sense. -/
  | unclear
deriving DecidableEq

namespace Request

/-- A number of 64 bits in decimal digits, perhaps after a plus sign. -/
def count? (text : String) : Option Nat :=
  let digits := match text.toList with
    | '+' :: digits => digits
    | digits => digits
  if digits.isEmpty || !digits.all Char.isDigit then none
  else
    let value := digits.foldl (fun value digit => value * 10 + (digit.toNat - '0'.toNat)) 0
    if value < 1 <<< 64 then some value else none

def form? : String → Option ReportForm
  | "human" => some .human
  | "json" => some .json
  | _ => none

/-- The shape of one argument. -/
inductive Word where
  /-- All arguments after two bare hyphens are values. -/
  | stop
  | long (name : String) (value? : Option String)
  | short (letters : List Char)
  | value (text : String)

def Word.ofString (argument : String) : Word :=
  match argument.toList with
  | ['-', '-'] => .stop
  | '-' :: '-' :: letters =>
      match letters.span (· ≠ '=') with
      | (name, []) => .long (String.ofList name) none
      | (name, _ :: given) => .long (String.ofList name) (some (String.ofList given))
  | '-' :: first :: letters => .short (first :: letters)
  | _ => .value argument

/-- Fills an open place of a request. A place that is filled already stays. -/
def fill {Value : Type} (place : Option Value) (value? : Option Value) :
    Option (Option Value) :=
  match place, value? with
  | none, some value => some (some value)
  | _, _ => none

/-- Gives an option of the name its value. -/
def withOption (request : CheckRequest) (name value : String) : Option CheckRequest :=
  match name with
  | "format" => do return { request with form? := ← fill request.form? (form? value) }
  | "severity" => do return { request with severity? := ← fill request.severity? (some value) }
  | "max-diagnostics" => do
      return { request with maxDiagnostics? := ← fill request.maxDiagnostics? (count? value) }
  | "max-iterations" => do
      return { request with maxIterations? := ← fill request.maxIterations? (count? value) }
  | _ => none

/-- Sets the switch of the name, which must be off. -/
def withSwitch (request : CheckRequest) (name : String) : Option CheckRequest :=
  match name with
  | "no-hints" => if request.noHints then none else some { request with noHints := true }
  | "no-color" => if request.noColor then none else some { request with noColor := true }
  | _ => none

def takesValue (name : String) : Bool :=
  ["format", "severity", "max-diagnostics", "max-iterations"].contains name

/-- Adds input files. Their names are not empty. -/
def withInputs (request : CheckRequest) (inputs : List String) : Request :=
  let inputs := request.inputs ++ inputs
  if inputs.isEmpty || inputs.contains "" then unclear else check { request with inputs }

/-- Reads the arguments after `check`, from left to right. -/
def ofCheckArguments (request : CheckRequest) : List String → Request
  | [] => withInputs request []
  | argument :: rest =>
      match Word.ofString argument with
      | .stop => withInputs request rest
      | .short ('h' :: _) => help
      | .short _ => unclear
      | .value "" => unclear
      | .value input => ofCheckArguments { request with inputs := request.inputs ++ [input] } rest
      | .long "help" none => help
      | .long name (some value) =>
          match withOption request name value with
          | some request => ofCheckArguments request rest
          | none => unclear
      | .long name none =>
          if takesValue name then
            match rest with
            | [] => unclear
            | next :: rest =>
                match Word.ofString next with
                | .value value =>
                    match withOption request name value with
                    | some request => ofCheckArguments request rest
                    | none => unclear
                | _ => unclear
          else
            match withSwitch request name with
            | some request => ofCheckArguments request rest
            | none => unclear

/-- Reads the arguments after a command that takes a fixed number of values. -/
def ofValues (finish : List String → Request) (count : Nat) (values : List String) :
    List String → Request
  | [] => if values.length = count then finish values else unclear
  | argument :: rest =>
      match Word.ofString argument with
      | .stop => if (values ++ rest).length = count then finish (values ++ rest) else unclear
      | .long "help" none => help
      | .short ('h' :: _) => help
      | .value value =>
          if values.length < count then ofValues finish count (values ++ [value]) rest
          else unclear
      | _ => unclear

def explainFirst : List String → Request
  | code :: _ => explain code
  | [] => unclear

/-- Reads the arguments after the name of the program. -/
def ofArguments : List String → Request
  | [] => unclear
  | argument :: rest =>
      match argument with
      | "check" => ofCheckArguments ⟨[], none, none, none, none, false, false⟩ rest
      | "explain" => ofValues explainFirst 1 [] rest
      | "init" => ofValues (fun _ => setUp) 0 [] rest
      | "help" =>
          match rest with
          | [] => help
          | [topic] => if ["check", "explain", "init", "help"].contains topic then help else unclear
          | _ => unclear
      | argument =>
          match Word.ofString argument with
          | .long "help" none => help
          | .short ('h' :: _) => help
          | .long "version" none => version
          | .short ('V' :: _) => version
          | _ => unclear

end Request
end NullFlow
