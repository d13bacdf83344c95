import NullFlow.Toml.Scalar
import NullFlow.Toml.Text
/-!
TOML documents: values, entries and headers, line by line.
-/

namespace NullFlow.Toml

/-- The items of an array up to the closing bracket. A comma may follow the last one. The first
argument bounds the number of items. -/
def items? (value? : Reader Toml) : Nat → Reader (List Toml)
  | 0, _ => none
  | count + 1, text => do
      match skipLines text.length text with
      | ']' :: rest => return ([], rest)
      | text => do
          let (item, rest) ← value? text
          match skipLines rest.length rest with
          | ',' :: rest => do
              let (others, rest) ← items? value? count rest
              return (item :: others, rest)
          | ']' :: rest => return ([item], rest)
          | _ => none

/-- A key and its value. -/
def pair? (value? : Reader Toml) : Reader (List String × String × Toml) := fun text => do
  let ((path, key), rest) ← path? text
  match rest with
  | '=' :: rest => do
      let (value, rest) ← value? (skipBlanks rest)
      return ((path, key, value), rest)
  | _ => none

/-- The entries of an inline table after the first one has been announced. -/
def pairs? (value? : Reader Toml) : Nat → Reader (List (List String × String × Toml))
  | 0, _ => none
  | count + 1, text => do
      let (pair, rest) ← pair? value? text
      match skipBlanks rest with
      | ',' :: rest => do
          let (others, rest) ← pairs? value? count rest
          return (pair :: others, rest)
      | '\x7d' :: rest => return ([pair], rest)
      | _ => none

/-- A value in which arrays and inline tables nest at most to a depth. -/
def valueTo? : Nat → Reader Toml
  | depth, text =>
      match text, depth with
      | '"' :: _, _ => (string? text).map fun (text, rest) => (.string text, rest)
      | '\x27' :: _, _ => (string? text).map fun (text, rest) => (.string text, rest)
      | '[' :: _, 0 => none
      | '\x7b' :: _, 0 => none
      | '[' :: rest, depth + 1 => do
          let (items, rest) ← items? (valueTo? depth) text.length rest
          return (.array items, rest)
      | '\x7b' :: rest, depth + 1 => do
          match skipBlanks rest with
          | '\x7d' :: rest => return (.inline [], rest)
          | rest => do
              let (pairs, rest) ← pairs? (valueTo? depth) text.length rest
              let entries ← pairs.foldlM (fun entries (path, key, value) =>
                addEntry path key value .header entries) []
              return (.inline entries, rest)
      | text, _ => do
          let (token, rest) := splitBare text
          return (← bare? token, rest)
termination_by structural depth => depth

def value? : Reader Toml := valueTo? (nestingLimit - 1)

/-- A document as far as it has been read, with the keys of the last header. -/
structure Document where
  header : List String
  entries : Entries

/-- Reads a header, of which the first bracket has been read. -/
def header? (document : Document) : Reader Document
  | '[' :: text => do
      let ((path, key), rest) ← path? text
      match rest with
      | ']' :: ']' :: rest => return (⟨path ++ [key], ← addElement path key document.entries⟩, rest)
      | _ => none
  | text => do
      let ((path, key), rest) ← path? text
      match rest with
      | ']' :: rest => return (⟨path ++ [key], ← addHeader path key document.entries⟩, rest)
      | _ => none

/-- Reads an entry of the table that the last header names. -/
def entry? (document : Document) : Reader Document := fun text => do
  let ((path, key, value), rest) ← pair? value? text
  return (⟨document.header, ← addUnder document.header path key value document.entries⟩, rest)

/-- Reads the lines of a document. The first argument bounds their number. -/
def lines? : Nat → Document → List Char → Option Document
  | 0, _, _ => none
  | count + 1, document, text =>
      match skipBlanks text with
      | [] => some document
      | '[' :: rest => do
          let (document, rest) ← header? document rest
          lines? count document (← trailing? rest)
      | text =>
          match lineEnd? (skipComment text) with
          | some rest => lines? count document rest
          | none => do
              let (document, rest) ← entry? document text
              lines? count document (← trailing? rest)

/-- Reads a document. A byte order mark in front does not count. -/
def parse? (text : String) : Option Entries := do
  let text := match text.toList with
    | '\ufeff' :: rest => rest
    | text => text
  let document ← lines? (text.length + 1) ⟨[], []⟩ text
  return document.entries

end NullFlow.Toml
