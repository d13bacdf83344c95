import NullFlow.Json.Basic
import NullFlow.Json.Number
/-!
The reader of JSON text. It is a machine that takes one character after the other and keeps the
arrays and objects that are still open on a stack. A text that drives it nowhere is wrong, and a
text that leaves it on the way is incomplete. The machine knows the shape of what is expected, so it
can skip all else, and reads null for a value that it skips. A skipped value has to be JSON, but it
may nest to any depth, its numbers may be of any size, and its strings may hold halves of surrogate
pairs.
-/

namespace NullFlow

namespace Json

/-- What is expected of a value. -/
inductive Shape where
  /-- Nothing is expected, and the value is skipped. -/
  | skipped
  /-- A string, a number or a truth value. Arrays and objects are wrong here, and are skipped. -/
  | scalar
  /-- Any value, with all that is in it. -/
  | whole
  | list (item : Shape)
  /-- An object with these fields, or an array of the fields in order. All else is skipped. -/
  | record (fields : List (String × Shape))

namespace Shape

def isSkipped : Shape → Bool
  | skipped => true
  | _ => false

/-- The shape of an array where the shape is expected. -/
def ofArray : Shape → Shape
  | scalar => skipped
  | shape => shape

/-- The shape of an object where the shape is expected. -/
def ofObject : Shape → Shape
  | scalar => skipped
  | list _ => skipped
  | shape => shape

/-- What is expected of the next item of an array. -/
def item (shape : Shape) (items : List Json) : Shape :=
  match shape with
  | whole => whole
  | list item => item
  | record fields => (fields[items.length]?.map Prod.snd).getD skipped
  | _ => skipped

/-- What is expected of a field of an object. -/
def field (shape : Shape) (name : String) : Shape :=
  match shape with
  | whole => whole
  | record fields => (fields.lookup name).getD skipped
  | _ => skipped

/-- The names of the fields of a record. -/
def names : Shape → List String
  | record fields => fields.map Prod.fst
  | _ => []

end Shape

end Json

/-- What is wrong with the text of an input. -/
inductive JsonFault where
  /-- The text is no JSON. -/
  | syntaxError
  /-- The text is the beginning of some JSON. -/
  | incomplete
  /-- The value has the wrong shape. -/
  | wrongShape
deriving DecidableEq

namespace Json

/-- An array or object that is still open, with its shape and what it holds so far, the last part
first. -/
inductive Container where
  | array (shape : Shape) (items : List Json)
  | object (shape : Shape) (fields : List (String × Json)) (name : String)

namespace Container

def shape : Container → Shape
  | array shape _ => shape
  | object shape .. => shape

/-- What is expected of the next value in the container. -/
def expected : Container → Shape
  | array shape items => shape.item items
  | object shape _ name => shape.field name

/-- Adds the next value. -/
def add (container : Container) (value : Json) : Container :=
  let value := if container.expected.isSkipped then .null else value
  match container with
  | array shape items => array shape (value :: items)
  | object shape fields name => object shape ((name, value) :: fields) name

end Container

/-- How much of a string has been read. The characters so far are kept in reverse. -/
inductive StringPart where
  | plain
  | escape
  /-- Hexadecimal digits follow. `high?` is the first half of a pair of surrogates. -/
  | unicode (missing code : Nat) (high? : Option Nat)
  /-- The second half of a pair of surrogates follows. -/
  | pairEscape (high : Nat)
  | pairMark (high : Nat)
  /-- A character stands where a hexadecimal digit is needed. The text is only wrong if the bytes
  that the digits need are there. Otherwise it is incomplete. -/
  | misspelled (missing : Nat)
deriving DecidableEq

inductive Mode where
  /-- A value follows. -/
  | value
  /-- A value follows, or the end of an empty array. -/
  | firstItem
  /-- A name follows, or the end of an empty object. -/
  | firstName
  | name
  | colon
  /-- A comma or the end of the innermost container follows. -/
  | rest
  | finished (value : Json)
  | string (isName : Bool) (isSkipped : Bool) (part : StringPart) (read : List Char)
  | number (isSkipped : Bool) (part : NumberPart) (read : List Char)
  /-- The rest of a word follows. -/
  | word (missing : List Char) (value : Json)

structure Machine where
  containers : List Container
  mode : Mode

namespace Machine

def start : Machine := ⟨[], .value⟩

/-- Arrays and objects nest less deep than this. -/
def nestingLimit : Nat := 128

def isBlank (char : Char) : Bool := char = ' ' || char = '\n' || char = '\r' || char = '\t'

/-- Takes note of a complete value. -/
def complete (value : Json) : List Container → Machine
  | [] => ⟨[], .finished value⟩
  | container :: containers => ⟨container.add value :: containers, .rest⟩

/-- Opens a container, unless it is to be read and too many are open. -/
def openContainer (container : Container) (mode : Mode) (containers : List Container) :
    Option Machine :=
  if container.shape.isSkipped || containers.length + 1 < nestingLimit then
    some ⟨container :: containers, mode⟩
  else none

/-- Takes the first character of a value of which the shape is expected. -/
def beginValue (shape : Shape) (containers : List Container) (char : Char) : Option Machine :=
  if char = '[' then openContainer (.array shape.ofArray []) .firstItem containers
  else if char = '\x7b' then openContainer (.object shape.ofObject [] "") .firstName containers
  else if char = '"' then some ⟨containers, .string false shape.isSkipped .plain []⟩
  else if char = '-' then some ⟨containers, .number shape.isSkipped .sign ['-']⟩
  else if char = '0' then some ⟨containers, .number shape.isSkipped .zero ['0']⟩
  else if char.isDigit then some ⟨containers, .number shape.isSkipped .whole [char]⟩
  else if char = 't' then some ⟨containers, .word ['r', 'u', 'e'] (.bool true)⟩
  else if char = 'f' then some ⟨containers, .word ['a', 'l', 's', 'e'] (.bool false)⟩
  else if char = 'n' then some ⟨containers, .word ['u', 'l', 'l'] .null⟩
  else none

/-- Takes a character after a complete part of a container. -/
def continueRest (containers : List Container) (char : Char) : Option Machine :=
  match containers with
  | [] => none
  | .array _ items :: outer =>
      if char = ',' then some ⟨containers, .value⟩
      else if char = ']' then some (complete (.array items.reverse) outer)
      else none
  | .object _ fields _ :: outer =>
      if char = ',' then some ⟨containers, .name⟩
      else if char = '\x7d' then some (complete (.object fields.reverse) outer)
      else none

/-- Takes note of a complete string. -/
def completeString (containers : List Container) (isName : Bool) (read : List Char) :
    Option Machine :=
  let text := String.ofList read.reverse
  if isName then
    match containers with
    | .object shape fields _ :: outer => some ⟨.object shape fields text :: outer, .colon⟩
    | _ => none
  else some (complete (.string text) containers)

/-- The character that a one-letter escape stands for. -/
def escaped? (char : Char) : Option Char :=
  if char = '"' then some '"'
  else if char = '\\' then some '\\'
  else if char = '/' then some '/'
  else if char = 'b' then some '\x08'
  else if char = 'f' then some '\x0c'
  else if char = 'n' then some '\n'
  else if char = 'r' then some '\r'
  else if char = 't' then some '\t'
  else none

def hexDigit? (char : Char) : Option Nat :=
  if char.isDigit then some (char.toNat - '0'.toNat)
  else if 'a' ≤ char && char ≤ 'f' then some (char.toNat - 'a'.toNat + 10)
  else if 'A' ≤ char && char ≤ 'F' then some (char.toNat - 'A'.toNat + 10)
  else none

/-- Takes note of four hexadecimal digits. Surrogates come in pairs, unless they are skipped. -/
def completeUnit (isSkipped : Bool) (code : Nat) (high? : Option Nat) (read : List Char) :
    Option (StringPart × List Char) :=
  match high? with
  | none =>
      if isSkipped then some (.plain, read)
      else if 0xD800 ≤ code && code < 0xDC00 then some (.pairEscape code, read)
      else if 0xDC00 ≤ code && code < 0xE000 then none
      else some (.plain, Char.ofNat code :: read)
  | some high =>
      if 0xDC00 ≤ code && code < 0xE000 then
        some (.plain, Char.ofNat (0x10000 + (high - 0xD800) * 0x400 + (code - 0xDC00)) :: read)
      else none

/-- Takes a character that is no hexadecimal digit where bytes for digits are missing. -/
def misspell (missing : Nat) (read : List Char) (char : Char) : Option (StringPart × List Char) :=
  if missing ≤ char.utf8Size then none else some (.misspelled (missing - char.utf8Size), read)

/-- Takes a character of a string that goes on. -/
def continueString (isSkipped : Bool) (part : StringPart) (read : List Char) (char : Char) :
    Option (StringPart × List Char) :=
  match part with
  | .plain =>
      if char = '\\' then some (.escape, read)
      else if char.toNat < 32 then none
      else some (.plain, char :: read)
  | .escape =>
      if char = 'u' then some (.unicode 4 0 none, read)
      else (escaped? char).map fun plain => (.plain, plain :: read)
  | .unicode missing code high? =>
      match hexDigit? char with
      | none => misspell missing read char
      | some digit =>
          if missing ≤ 1 then completeUnit isSkipped (16 * code + digit) high? read
          else some (.unicode (missing - 1) (16 * code + digit) high?, read)
  | .misspelled missing => misspell missing read char
  | .pairEscape high => if char = '\\' then some (.pairMark high, read) else none
  | .pairMark high => if char = 'u' then some (.unicode 4 0 (some high), read) else none

/-- What is expected of the next value. The root is expected of the whole text. -/
def expected (root : Shape) : List Container → Shape
  | [] => root
  | container :: _ => container.expected

/-- Takes the quote that begins a name in an object of the shape. -/
def beginName (shape : Shape) (containers : List Container) (char : Char) : Option Machine :=
  if char = '"' then some ⟨containers, .string true shape.isSkipped .plain []⟩ else none

/-- Takes a character that is part of no string, number or word. -/
def stepBetween (root : Shape) (machine : Machine) (char : Char) : Option Machine :=
  if isBlank char then some machine
  else
    match machine.mode, machine.containers with
    | .value, containers => beginValue (expected root containers) containers char
    | .firstItem, .array shape _ :: outer =>
        if char = ']' then some (complete (.array []) outer)
        else beginValue (shape.item []) machine.containers char
    | .firstName, .object shape .. :: outer =>
        if char = '\x7d' then some (complete (.object []) outer)
        else beginName shape machine.containers char
    | .name, container :: outer => beginName container.shape (container :: outer) char
    | .colon, containers => if char = ':' then some ⟨containers, .value⟩ else none
    | .rest, containers => continueRest containers char
    | _, _ => none

/-- Takes one character. -/
def step (root : Shape) (machine : Machine) (char : Char) : Option Machine :=
  match machine.mode with
  | .string isName isSkipped part read =>
      if char = '"' && part = .plain then completeString machine.containers isName read
      else
        (continueString isSkipped part read char).map fun (part, read) =>
          ⟨machine.containers, .string isName isSkipped part read⟩
  | .number isSkipped part read =>
      match part.next? char with
      | some part => some ⟨machine.containers, .number isSkipped part (char :: read)⟩
      | none =>
          if part.isComplete then do
            let value ← if isSkipped then some .null else ofNumber? part read.reverse
            stepBetween root (complete value machine.containers) char
          else none
  | .word [] _ => none
  | .word (wanted :: missing) value =>
      if char = wanted then
        match missing with
        | [] => some (complete value machine.containers)
        | missing => some ⟨machine.containers, .word missing value⟩
      else none
  | _ => stepBetween root machine char

/-- What a text amounts to that ends inside a number. A skipped number must be complete. -/
def finishNumber (containers : List Container) (isSkipped : Bool) (part : NumberPart)
    (read : List Char) : Except JsonFault Json :=
  match isSkipped, part.isComplete with
  | true, true => .error .incomplete
  | true, false => .error .syntaxError
  | false, false => .error .incomplete
  | false, true =>
      match ofNumber? part read.reverse with
      | none => .error .syntaxError
      | some value => if containers.isEmpty then .ok value else .error .incomplete

/-- What a text amounts to that ends here. -/
def finish (machine : Machine) : Except JsonFault Json :=
  match machine.mode with
  | .finished value => .ok value
  | .number isSkipped part read => finishNumber machine.containers isSkipped part read
  | _ => .error .incomplete

/-- Takes a whole text. -/
def run (root : Shape) (machine : Machine) (text : List Char) : Option Machine :=
  text.foldlM (step root) machine

end Machine

/-- Reads a JSON text of which the shape is expected. -/
def read (shape : Shape) (text : String) : Except JsonFault Json :=
  match Machine.start.run shape text.toList with
  | some machine => machine.finish
  | none => .error .syntaxError

/-- Reads a JSON text with all that is in it. -/
def parse (text : String) : Except JsonFault Json := read .whole text

end Json
end NullFlow
