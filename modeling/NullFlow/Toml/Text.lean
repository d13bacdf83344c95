import NullFlow.Toml.Basic
/-!
The text of TOML: blanks, comments, keys and strings. A reader takes a text and answers with what
it has read and the rest of the text, or with nothing if the text is wrong.
-/

namespace NullFlow.Toml

abbrev Reader (Result : Type) := List Char → Option (Result × List Char)

def isBlank (char : Char) : Bool := char = ' ' || char = '\t'

def skipBlanks (text : List Char) : List Char := text.dropWhile isBlank

/-- The character may stand in a comment. -/
def isPrintable (char : Char) : Bool := char = '\t' || (' ' ≤ char && char ≠ '\x7f')

/-- Skips a comment, if there is one, up to the end of the line. -/
def skipComment : List Char → List Char
  | '#' :: rest => rest.dropWhile isPrintable
  | text => text

/-- Skips the end of a line. The end of the text is one too. -/
def lineEnd? : List Char → Option (List Char)
  | [] => some []
  | '\n' :: rest => some rest
  | '\r' :: '\n' :: rest => some rest
  | _ => none

/-- Skips blanks and a comment in front of the end of a line. -/
def trailing? (text : List Char) : Option (List Char) := lineEnd? (skipComment (skipBlanks text))

/-- Skips blanks, comments and ends of lines. The first argument bounds the number of lines. -/
def skipLines : Nat → List Char → List Char
  | 0, text => text
  | lines + 1, text =>
      let text := skipBlanks text
      match text with
      | [] => []
      | text =>
          match lineEnd? (skipComment text) with
          | some rest => skipLines lines rest
          | none => text

def hexValue? (digits : List Char) : Option Nat :=
  digits.foldlM (fun value char =>
    if char.isDigit then some (value * 16 + (char.toNat - '0'.toNat))
    else if 'a' ≤ char.toLower && char.toLower ≤ 'f' then
      some (value * 16 + (char.toLower.toNat - 'a'.toNat + 10))
    else none) 0

/-- The character of a code that a fixed count of hexadecimal digits gives. -/
def coded? (count : Nat) : Reader Char := fun text => do
  let digits := text.take count
  if digits.length < count then none
  let code ← hexValue? digits
  if code < 0xD800 || (0xE000 ≤ code && code < 0x110000) then
    some (Char.ofNat code, text.drop count)
  else none

/-- The character that follows a backslash. -/
def escaped? : Reader Char
  | 'b' :: rest => some ('\x08', rest)
  | 't' :: rest => some ('\t', rest)
  | 'n' :: rest => some ('\n', rest)
  | 'f' :: rest => some ('\x0c', rest)
  | 'r' :: rest => some ('\r', rest)
  | '"' :: rest => some ('"', rest)
  | '\\' :: rest => some ('\\', rest)
  | 'u' :: rest => coded? 4 rest
  | 'U' :: rest => coded? 8 rest
  | _ => none

/-- Skips blanks and line ends. -/
def skipGaps : List Char → List Char
  | ' ' :: rest => skipGaps rest
  | '\t' :: rest => skipGaps rest
  | '\n' :: rest => skipGaps rest
  | '\r' :: '\n' :: rest => skipGaps rest
  | text => text

/-- Skips what follows a backslash at the end of a line, up to the next text. -/
def skipBreak? (text : List Char) : Option (List Char) :=
  match skipBlanks text with
  | '\n' :: rest => some (skipGaps rest)
  | '\r' :: '\n' :: rest => some (skipGaps rest)
  | _ => none

/-- The rest of a string on one line. `escapes` tells whether a backslash has a meaning. The first
argument bounds the number of characters. -/
def lineString? (quote : Char) (escapes : Bool) : Nat → List Char → Reader String
  | 0, _, _ => none
  | count + 1, read, text =>
      match text with
      | [] => none
      | char :: rest =>
          if char = quote then some (String.ofList read.reverse, rest)
          else if escapes && char = '\\' then
            match escaped? rest with
            | some (char, rest) => lineString? quote escapes count (char :: read) rest
            | none => none
          else if isPrintable char then lineString? quote escapes count (char :: read) rest
          else none

/-- The rest of a string that may span lines. It ends with three quotes, and one or two more
before them belong to it. -/
def blockString? (quote : Char) (escapes : Bool) : Nat → List Char → Reader String
  | 0, _, _ => none
  | count + 1, read, text =>
      match text with
      | [] => none
      | '\n' :: rest => blockString? quote escapes count ('\n' :: read) rest
      | '\r' :: '\n' :: rest => blockString? quote escapes count ('\n' :: read) rest
      | char :: rest =>
          if char = quote then
            let (more, after) := rest.span (· = quote)
            if more.length < 2 then
              blockString? quote escapes count (more ++ quote :: read) after
            else if more.length < 5 then
              some (String.ofList (read.reverse ++ more.drop 2), after)
            else none
          else if escapes && char = '\\' then
            match skipBreak? rest with
            | some rest => blockString? quote escapes count read rest
            | none =>
                match escaped? rest with
                | some (char, rest) => blockString? quote escapes count (char :: read) rest
                | none => none
          else if isPrintable char then blockString? quote escapes count (char :: read) rest
          else none

/-- The text without a line end in front. -/
def dropLineEnd : List Char → List Char
  | '\n' :: rest => rest
  | '\r' :: '\n' :: rest => rest
  | text => text

/-- A string in quotes of either kind, on one line or on several. -/
def string? : Reader String := fun text =>
  match text with
  | '"' :: '"' :: '"' :: rest => blockString? '"' true text.length [] (dropLineEnd rest)
  | '\x27' :: '\x27' :: '\x27' :: rest =>
      blockString? '\x27' false text.length [] (dropLineEnd rest)
  | '"' :: rest => lineString? '"' true text.length [] rest
  | '\x27' :: rest => lineString? '\x27' false text.length [] rest
  | _ => none

def isKeyChar (char : Char) : Bool := char.isAlphanum || char = '-' || char = '_'

/-- A key without dots. -/
def simpleKey? : Reader String := fun text =>
  match text with
  | '"' :: rest => lineString? '"' true text.length [] rest
  | '\x27' :: rest => lineString? '\x27' false text.length [] rest
  | text =>
      match text.span isKeyChar with
      | ([], _) => none
      | (key, rest) => some (String.ofList key, rest)

/-- The keys of a dotted key. The first argument bounds their number. -/
def keys? : Nat → Reader (List String)
  | 0, _ => none
  | count + 1, text => do
      let (key, rest) ← simpleKey? (skipBlanks text)
      match skipBlanks rest with
      | '.' :: rest => do
          let (others, rest) ← keys? count rest
          return (key :: others, rest)
      | rest => return ([key], rest)

/-- Values and keys nest less deep than this. -/
def nestingLimit : Nat := 80

/-- A dotted key, in which some key comes last. -/
def path? : Reader (List String × String) := fun text => do
  let (keys, rest) ← keys? (nestingLimit - 1) text
  let key ← keys.getLast?
  return ((keys.dropLast, key), rest)

end NullFlow.Toml
