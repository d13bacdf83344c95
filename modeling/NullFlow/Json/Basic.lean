/-!
JSON values and their text. A number keeps whether it was written as an integer, because only
integers can be counts and positions.
-/

namespace NullFlow

inductive Json where
  | null
  | bool (value : Bool)
  | integer (value : Int)
  /-- A number with a fraction, with an exponent, or too large for an integer of 64 bits. -/
  | decimal (text : String)
  | string (text : String)
  | array (items : List Json)
  | object (fields : List (String × Json))

namespace Json

def natural (value : Nat) : Json := .integer value

/-- The value of an option, or null. -/
def optional {Item : Type} (encode : Item → Json) : Option Item → Json
  | some item => encode item
  | none => null

def list {Item : Type} (encode : Item → Json) (items : List Item) : Json :=
  .array (items.map encode)

/-- An object with the name of its kind. -/
def tagged (kind : String) (fields : List (String × Json)) : Json :=
  object (("kind", string kind) :: fields)

/-- The two lower-case hexadecimal digits of a number below 256. -/
def hexPair (code : Nat) : List Char := [Nat.digitChar (code / 16), Nat.digitChar (code % 16)]

/-- A character as it stands inside a string. Quotes, backslashes and control characters are
escaped, and nothing else is. -/
def escapeChar (char : Char) : List Char :=
  if char = '"' then ['\\', '"']
  else if char = '\\' then ['\\', '\\']
  else if char = '\n' then ['\\', 'n']
  else if char = '\r' then ['\\', 'r']
  else if char = '\t' then ['\\', 't']
  else if char = '\x08' then ['\\', 'b']
  else if char = '\x0c' then ['\\', 'f']
  else if char.toNat < 32 then ['\\', 'u', '0', '0'] ++ hexPair char.toNat
  else [char]

def quoteChars (text : String) : List Char := '"' :: text.toList.flatMap escapeChar ++ ['"']

def integerChars : Int → List Char
  | .ofNat value => Nat.toDigits 10 value
  | .negSucc value => '-' :: Nat.toDigits 10 (value + 1)

mutual

/-- The text of a value without blanks. -/
def chars : Json → List Char
  | null => ['n', 'u', 'l', 'l']
  | bool true => ['t', 'r', 'u', 'e']
  | bool false => ['f', 'a', 'l', 's', 'e']
  | integer value => integerChars value
  | decimal text => text.toList
  | string text => quoteChars text
  | array [] => ['[', ']']
  | array (item :: rest) => '[' :: chars item ++ itemsChars rest
  | object [] => ['\x7b', '\x7d']
  | object ((name, value) :: rest) =>
      '\x7b' :: quoteChars name ++ ':' :: chars value ++ fieldsChars rest

/-- The items after the first one, up to the closing bracket. -/
def itemsChars : List Json → List Char
  | [] => [']']
  | item :: rest => ',' :: chars item ++ itemsChars rest

/-- The fields after the first one, up to the closing brace. -/
def fieldsChars : List (String × Json) → List Char
  | [] => ['\x7d']
  | (name, value) :: rest => ',' :: quoteChars name ++ ':' :: chars value ++ fieldsChars rest

end

def render (value : Json) : String := String.ofList value.chars

/-- A new line with two blanks for every level of nesting. -/
def newline (depth : Nat) : List Char := '\n' :: List.replicate (2 * depth) ' '

mutual

/-- The text of a value with one line for every item and field. -/
def prettyChars (depth : Nat) : Json → List Char
  | array (item :: rest) =>
      '[' :: newline (depth + 1) ++ prettyChars (depth + 1) item ++ prettyItems depth rest
  | object ((name, value) :: rest) =>
      '\x7b' :: newline (depth + 1) ++ quoteChars name ++ [':', ' '] ++
        prettyChars (depth + 1) value ++ prettyFields depth rest
  | value => chars value

def prettyItems (depth : Nat) : List Json → List Char
  | [] => newline depth ++ [']']
  | item :: rest =>
      ',' :: newline (depth + 1) ++ prettyChars (depth + 1) item ++ prettyItems depth rest

def prettyFields (depth : Nat) : List (String × Json) → List Char
  | [] => newline depth ++ ['\x7d']
  | (name, value) :: rest =>
      ',' :: newline (depth + 1) ++ quoteChars name ++ [':', ' '] ++
        prettyChars (depth + 1) value ++ prettyFields depth rest

end

def pretty (value : Json) : String := String.ofList (prettyChars 0 value)

end Json
end NullFlow
