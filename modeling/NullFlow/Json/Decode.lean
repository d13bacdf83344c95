import NullFlow.Json.Reader
/-!
Decoding of JSON values. A record is an object, of which unknown names do not count, or an array
that lists the fields in order. A choice between several shapes is marked by a name.
-/

namespace NullFlow.Json

abbrev Decoded := Except JsonFault

def misfit {Result : Type} : Decoded Result := .error .wrongShape

def asBool : Json → Decoded Bool
  | bool value => .ok value
  | _ => misfit

def asString : Json → Decoded String
  | string text => .ok text
  | _ => misfit

/-- A natural number below a bound. -/
def asNatural (bound : Nat) : Json → Decoded Nat
  | integer (.ofNat value) => if value < bound then .ok value else misfit
  | _ => misfit

/-- Positions and identifiers are natural numbers of 32 bits. -/
def asWord : Json → Decoded Nat := asNatural (1 <<< 32)

def asList {Item : Type} (decode : Json → Decoded Item) : Json → Decoded (List Item)
  | array items => items.mapM decode
  | _ => misfit

def asArray {Item : Type} (decode : Json → Decoded Item) (value : Json) :
    Decoded (Array Item) := List.toArray <$> asList decode value

/-- The fields of a record by their names. -/
abbrev Record := String → Option Json

namespace Record

/-- A field that must be there. -/
def required {Item : Type} (record : Record) (name : String) (decode : Json → Decoded Item) :
    Decoded Item :=
  match record name with
  | some value => decode value
  | none => misfit

/-- A field that may be missing, but may not be null. -/
def withDefault {Item : Type} (record : Record) (name : String) (default : Item)
    (decode : Json → Decoded Item) : Decoded Item :=
  match record name with
  | some value => decode value
  | none => .ok default

/-- A field that may be missing or null. -/
def optional {Item : Type} (record : Record) (name : String) (decode : Json → Decoded Item) :
    Decoded (Option Item) :=
  match record name with
  | some null => .ok none
  | some value => some <$> decode value
  | none => .ok none

end Record

/-- The fields of an object. None of the names may occur twice. -/
def objectRecord (names : List String) (fields : List (String × Json)) : Decoded Record :=
  if names.any fun name => 1 < (fields.filter fun field => field.1 == name).length then misfit
  else .ok fun name => fields.lookup name

/-- The items of an array as fields, in the order of the names. -/
def arrayRecord (names : List String) (items : List Json) (excess : JsonFault) : Decoded Record :=
  if names.length < items.length then .error excess
  else .ok fun name => (names.zip items).lookup name

/-- A record with the names. -/
def asRecord (names : List String) : Json → Decoded Record
  | object fields => objectRecord names fields
  | array items => arrayRecord names items .wrongShape
  | _ => misfit

/-- A record of the shape that its text was read for. An item beyond the fields counts as an error
of the text, because nothing is expected of it there. -/
def asOuterRecord (shape : Shape) : Json → Decoded Record
  | array items => arrayRecord shape.names items .syntaxError
  | value => asRecord shape.names value

/-- Decodes a record whose shape is named by its field `kind`, or by the first item of an array. The
decoder gets the name and a function that gives access to the fields of the shape. -/
def asTagged {Result : Type} (value : Json)
    (decode : String → (List String → Decoded Record) → Decoded Result) : Decoded Result :=
  match value with
  | object fields => do
      let record ← objectRecord ["kind"] fields
      decode (← record.required "kind" asString) fun names => objectRecord names fields
  | array (tag :: items) => do
      decode (← asString tag) fun names => arrayRecord names items .wrongShape
  | _ => misfit

/-- The name of a choice and its content. A plain string has none. -/
def asChoice : Json → Decoded (String × Option Json)
  | string name => .ok (name, none)
  | object [(name, content)] => .ok (name, some content)
  | _ => misfit

/-- The content of a choice that has none: nothing, null or an object without fields. -/
def asNothing : Option Json → Decoded Unit
  | none => .ok ()
  | some null => .ok ()
  | some (object []) => .ok ()
  | _ => misfit

/-- A choice among names without content. -/
def asName (value : Json) : Decoded String := do
  let (name, content?) ← asChoice value
  asNothing content?
  return name

end NullFlow.Json
