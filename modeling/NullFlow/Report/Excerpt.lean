import NullFlow.Diagnostic.Basic
import NullFlow.Report.Width
/-!
Drawings of diagnostics: the line of the source with the character at fault, under a header and
above the explanation. A diagnostic names a place by line and column, and a drawing needs the number
of characters before it. Colors are pieces of text between control sequences for a terminal.
-/

namespace NullFlow.Report

/-- The lines of a text. Each keeps the line feed that ends it. -/
def lines : List Char → List (List Char)
  | [] => []
  | char :: rest =>
      if char = '\n' then [char] :: lines rest
      else
        match lines rest with
        | [] => [[char]]
        | line :: others => (char :: line) :: others

/-- The number of characters before a line and column, which count from one. A place outside the
text moves to its last character. -/
def offset (source : List Char) (line column : Nat) : Nat :=
  min (((lines source).take (line - 1)).flatten.length + (column - 1)) (source.length - 1)


/-- The characters that end a line of a drawing. -/
def endsLine (char : Char) : Bool :=
  ['\n', '\r', '\x0b', '\x0c', '\u0085', '\u2028', '\u2029'].contains char

/-- The lines of a drawing. Each keeps the characters that end it, of which a carriage return and
a line feed together are one ending. -/
def drawnLines : List Char → List (List Char)
  | [] => []
  | '\r' :: '\n' :: rest => ['\r', '\n'] :: drawnLines rest
  | char :: rest =>
      if endsLine char then [char] :: drawnLines rest
      else
        match drawnLines rest with
        | [] => [[char]]
        | line :: others => (char :: line) :: others

/-- A place in a drawing: the number of the line from one, the line, and the number of the
characters before the place in it. -/
structure Place where
  number : Nat
  line : List Char
  indent : Nat

/-- Finds a character among lines of which the first has the number. -/
def findPlace (number : Nat) : List (List Char) → Nat → Place
  | [], indent => ⟨number, [], indent⟩
  | [line], indent => ⟨number, line, indent⟩
  | line :: next :: rest, indent =>
      if indent < line.length then ⟨number, line, indent⟩
      else findPlace (number + 1) (next :: rest) (indent - line.length)

/-- The line without blanks at its end. -/
def trimEnd (line : List Char) : List Char := (line.reverse.dropWhile isBlank).reverse

/-- The colors of a drawing, as parameters of a control sequence. -/
inductive Color where
  | frame
  | margin
  | source
  | note
  | heading (severity : Severity)
  | label (severity : Severity)

def Color.code : Color → String
  | frame => "38;5;246"
  | margin => "38;5;240"
  | source => "38;5;249"
  | note => "38;5;115"
  | heading .warning => "33"
  | heading .hint => "38;5;147"
  | label .warning => "33"
  | label .hint => "36"

/-- A piece of text in a color, if colors are wanted. -/
def paint (colored : Bool) (color : Color) (text : String) : String :=
  if colored then s!"\x1b[{color.code}m{text}\x1b[0m" else text

def blanks (count : Nat) : String := "".pushn ' ' count

/-- A character of the source as a drawing shows it. -/
def shown (char : Char) : Char := if isBlank char then ' ' else char

/-- The number of columns that the next characters of a line take. Past its end every character
takes one. -/
def columns (line : List Char) (count : Nat) : Nat :=
  (line.take count).foldl (fun columns char => columns + width char) (count - line.length)

/-- The columns of a line below the source: those before the place, those of the character at the
place, and those of two characters after it. -/
def underline (place : Place) (mark tail : String) : String :=
  let rest := place.line.drop place.indent
  blanks (columns place.line place.indent) ++ (if columns rest 1 = 0 then "" else mark) ++
    String.join (List.replicate (columns (rest.drop 1) 2) tail)

/-- How a heading calls a severity. -/
def heading : Severity → String
  | .warning => "Warning"
  | .hint => "Advice"

/-- Draws a diagnostic over the source of its file. -/
def excerpt (colored : Bool) (source : List Char) (diagnostic : Diagnostic) : String :=
  let severity := diagnostic.severity
  let location := diagnostic.location
  let place := findPlace 1 (drawnLines source)
    (offset source location.startLine location.startColumn)
  let number := toString place.number
  let width := number.length
  let frame := paint colored .frame
  let label := paint colored (.label severity)
  let margin := " " ++ paint colored .margin (blanks (width + 1) ++ "│") ++ " "
  let title := paint colored (.heading severity) s!"[{diagnostic.rule}] {heading severity}:"
  let position := s!" {location.file}:{number}:{place.indent + 1} "
  let code := (trimEnd place.line).zipIdx.map fun (char, index) =>
    paint colored (if index = place.indent then .label severity else .source) (shown char).toString
  let note := match diagnostic.method? with
    | none => []
    | some method => [margin, margin ++ paint colored .note "Note" ++ s!": in {method}"]
  let drawing := [
    s!"{title} {diagnostic.kind.title}",
    blanks (width + 2) ++ frame "╭" ++ frame "─" ++ frame "[" ++ position ++ frame "]",
    blanks (width + 2) ++ frame "│",
    " " ++ frame (number ++ " │") ++ " " ++ String.join code,
    margin ++ underline place (label "┬") " ",
    margin ++ underline place (label "╰") (label "─") ++ " " ++ diagnostic.explanation] ++
    note ++ [frame ("".pushn '─' (width + 2) ++ "╯")]
  String.join (drawing.map fun line => line ++ "\n")

end NullFlow.Report
