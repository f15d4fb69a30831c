/-
**Reading a document.**

A document is a list of lines.  A line is blank, gives a key a value, or is the header of the table
to which the keys below it belong.  Values may nest in brackets and braces, to a fixed depth.

* `readValue?` — one value;
* `readLines?` — the lines of a document;
* `readDocument?` — a whole document.
-/

import Strata.Toml.Lexeme

set_option relaxedAutoImplicit false
set_option autoImplicit false

namespace Strata.Toml

/-! ### Values -/

/-- Reads a value that neither brackets nor braces open. -/
def readScalar? (text : List Char) : Option (Node × List Char) :=
  match text with
  | [] => none
  | c :: _ =>
    if c = '"' ∨ c = '\'' then (readText? text).map fun (s, rest) => (.scalar (.text s), rest)
    else if ['t', 'r', 'u', 'e'].isPrefixOf text then
      some (.scalar (.boolean true), text.drop 4)
    else if ['f', 'a', 'l', 's', 'e'].isPrefixOf text then
      some (.scalar (.boolean false), text.drop 5)
    else ((readDate? text).or (readNumber? text)).map fun (v, rest) => (.scalar v, rest)

mutual

/-- Reads a value at a depth of nesting, in at most `fuel` steps. -/
def readValue? : Nat → Nat → List Char → Option (Node × List Char)
  | 0, _, _ => none
  | fuel + 1, depth, text =>
    match text with
    | '[' :: rest =>
      if depth + 1 < depthLimit then
        (readItems? fuel (depth + 1) (dropLines rest)).map fun rest => (.scalar .array, rest)
      else none
    | '\x7b' :: rest =>
      if depth + 1 < depthLimit then
        match dropBlanks rest with
        | '\x7d' :: rest => some (.closed [], rest)
        | rest =>
          (readFields? fuel (depth + 1) [] rest).map fun (entries, rest) => (.closed entries, rest)
      else none
    | text => readScalar? text

/-- Reads the items of an array up to its closing bracket. -/
def readItems? : Nat → Nat → List Char → Option (List Char)
  | 0, _, _ => none
  | fuel + 1, depth, text =>
    match text with
    | ']' :: rest => some rest
    | text =>
      match readValue? fuel depth text with
      | none => none
      | some (_, rest) =>
        match dropLines rest with
        | ',' :: rest => readItems? fuel depth (dropLines rest)
        | ']' :: rest => some rest
        | _ => none

/-- Reads the entries of a table in braces up to its closing brace. -/
def readFields? : Nat → Nat → Entries → List Char → Option (Entries × List Char)
  | 0, _, _, _ => none
  | fuel + 1, depth, entries, text =>
    match readPath? text with
    | none => none
    | some (path, key, rest) =>
      match dropBlanks rest with
      | '=' :: rest =>
        match readValue? fuel depth (dropBlanks rest) with
        | none => none
        | some (node, rest) =>
          match insertKey path key node entries with
          | none => none
          | some entries =>
            match dropBlanks rest with
            | ',' :: rest => readFields? fuel depth entries rest
            | '\x7d' :: rest => some (entries, rest)
            | _ => none
      | _ => none

end

/-! ### Lines -/

/-- What has been read of a document: its tables, and the path of the table whose header was read
last. -/
structure Progress where
  entries : Entries
  path : List String

/-- Adds a value to the table whose header was read last. -/
def Progress.insert? (p : Progress) (path : List String) (key : String) (node : Node) :
    Option Progress :=
  (changeAt .passed (fun _ entries => insertKey path key node entries) p.path .header
      p.entries).map fun entries => { p with entries := entries }

/-- Reads a header, behind its opening brackets. -/
def readHeader? (closing : List Char)
    (openAt : List String → String → Entries → Option Entries) (p : Progress) (text : List Char) :
    Option (Progress × List Char) :=
  match readPath? text with
  | none => none
  | some (path, key, rest) =>
    if closing.isPrefixOf rest then
      match openAt path key p.entries, endLine? (rest.drop closing.length) with
      | some entries, some rest => some (⟨entries, path ++ [key]⟩, rest)
      | _, _ => none
    else none

/-- Reads a key and its value. -/
def readAssignment? (p : Progress) (text : List Char) : Option (Progress × List Char) :=
  match readPath? text with
  | none => none
  | some (path, key, rest) =>
    match rest with
    | '=' :: rest =>
      match readValue? (2 * text.length + 2) 0 (dropBlanks rest) with
      | none => none
      | some (node, rest) =>
        match p.insert? path key node, endLine? rest with
        | some p, some rest => some (p, rest)
        | _, _ => none
    | _ => none

/-- Reads one line that is not blank. -/
def readLine? (p : Progress) (text : List Char) : Option (Progress × List Char) :=
  match text with
  | '[' :: '[' :: rest => readHeader? [']', ']'] openElement p rest
  | '[' :: rest => readHeader? [']'] openTable p rest
  | text => readAssignment? p text

/-- Reads the lines of a document, at most `fuel`. -/
def readLines? : Nat → Progress → List Char → Option Entries
  | 0, _, _ => none
  | fuel + 1, p, text =>
    match dropLines text with
    | [] => some p.entries
    | text =>
      match readLine? p text with
      | none => none
      | some (p, rest) => readLines? fuel p rest

/-- Reads a document, in front of which a mark of the byte order may stand. -/
def readDocument? (text : String) : Option Entries :=
  let chars :=
    match text.toList with
    | '\uFEFF' :: rest => rest
    | rest => rest
  readLines? (chars.length + 1) ⟨[], []⟩ chars

end Strata.Toml
