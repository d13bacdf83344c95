/-!
TOML values, and tables that grow line by line. A table remembers how it came about, because that
decides which later lines may add to it.
-/

namespace NullFlow

/-- How a table came about. -/
inductive TableOrigin where
  /-- A line in brackets names the table. -/
  | header
  /-- A line in brackets names a table inside it. -/
  | implied
  /-- A key with dots leads through it. -/
  | dotted
deriving DecidableEq

inductive Toml where
  | string (text : String)
  | integer (value : Int)
  | decimal
  | boolean (value : Bool)
  /-- A date, a time or both. -/
  | moment
  | array (items : List Toml)
  /-- A table written as one value. It is complete. -/
  | inline (entries : List (String × Toml))
  | table (origin : TableOrigin) (entries : List (String × Toml))
  /-- The tables of one name in double brackets, the last first. -/
  | tables (entries : List (List (String × Toml)))

namespace Toml

abbrev Entries := List (String × Toml)

/-- Replaces the value of a key. A new key goes to the end. -/
def replace (entries : Entries) (key : String) (value : Toml) : Entries :=
  match entries with
  | [] => [(key, value)]
  | (other, old) :: rest =>
      if other = key then (key, value) :: rest else (other, old) :: replace rest key value

/-- Changes the table at the end of a path. Tables missing on the way are made with the origin, and
`change` learns the origin of the table that it changes. A path of dotted keys does not enter
tables that a header names. Of tables in double brackets the path enters the last one. -/
def changeAt (origin : TableOrigin) (change : TableOrigin → Entries → Option Entries)
    (here : TableOrigin) (entries : Entries) : List String → Option Entries
  | [] => change here entries
  | key :: path =>
      match entries.lookup key with
      | none => do
          let inner ← changeAt origin change origin [] path
          return replace entries key (.table origin inner)
      | some (.table there inner) =>
          if origin = .dotted && there = .header then none
          else do
            let inner ← changeAt origin change there inner path
            return replace entries key (.table there inner)
      | some (.tables (last :: earlier)) => do
          let last ← changeAt origin change .header last path
          return replace entries key (.tables (last :: earlier))
      | some _ => none

/-- Adds an entry under a dotted key to a table. Nothing may be defined twice, and only dotted keys
add to tables that dotted keys made. -/
def addEntry (path : List String) (key : String) (value : Toml) (here : TableOrigin)
    (entries : Entries) : Option Entries :=
  changeAt .dotted
    (fun there inner =>
      if path.isEmpty == (there == .dotted) || (inner.lookup key).isSome then none
      else some (inner ++ [(key, value)]))
    here entries path

/-- Makes room for the table that a header names. -/
def addHeader (path : List String) (key : String) (entries : Entries) : Option Entries :=
  changeAt .implied
    (fun _ inner =>
      match inner.lookup key with
      | none => some (inner ++ [(key, .table .header [])])
      | some (.table .implied nested) => some (replace inner key (.table .header nested))
      | some _ => none)
    .header entries path

/-- Makes room for one more of the tables that a header in double brackets names. -/
def addElement (path : List String) (key : String) (entries : Entries) : Option Entries :=
  changeAt .implied
    (fun _ inner =>
      match inner.lookup key with
      | none => some (inner ++ [(key, .tables [[]])])
      | some (.tables earlier) => some (replace inner key (.tables ([] :: earlier)))
      | some _ => none)
    .header entries path

/-- Adds an entry under a dotted key to the table that the last header names. -/
def addUnder (header path : List String) (key : String) (value : Toml) (entries : Entries) :
    Option Entries :=
  changeAt .implied (fun _ inner => addEntry path key value .header inner) .header entries header

end Toml
end NullFlow
