/-
**Documents of tables.**

A document is a table of named values and tables.  A table may be defined once only, but it comes
into being in several ways — by its own header, on the way to a table below it, or on the way of a
dotted key — and what may still be added to it depends on that way, which is kept with it.

* `Scalar`, `Node`, `Entries` — what a document holds;
* `insertKey` — adds a value under a dotted key;
* `openTable`, `openElement` — the headers of tables and of elements of arrays of tables;
* `lookup?` — the value of a name.
-/

set_option relaxedAutoImplicit false
set_option autoImplicit false

namespace Strata.Toml

/-- A value that is no table.  Numbers with a fraction and dates keep their text. -/
inductive Scalar where
  | text (s : String)
  | integer (n : Int)
  | float (digits : String)
  | boolean (b : Bool)
  | date (digits : String)
  | array
  deriving DecidableEq, Repr

/-- How a table came into being. -/
inductive Origin where
  /-- By its header or as a value in braces; it is complete. -/
  | header
  /-- On the way of a header to a table below it. -/
  | passed
  /-- On the way of a dotted key. -/
  | dotted
  deriving DecidableEq, Repr

/-- What a name stands for. -/
inductive Node where
  | scalar (v : Scalar)
  /-- A table in braces, to which nothing can be added. -/
  | closed (entries : List (String × Node))
  | table (origin : Origin) (entries : List (String × Node))
  /-- An array of tables, the last element first. -/
  | tables (elements : List (List (String × Node)))

/-- The names of a table. -/
abbrev Entries := List (String × Node)

/-- What a name stands for in a table. -/
def lookup? (name : String) (entries : Entries) : Option Node := List.lookup name entries

/-- Gives a name a new meaning. -/
def replace (name : String) (node : Node) : Entries → Entries
  | [] => [(name, node)]
  | e :: rest => if e.1 = name then (name, node) :: rest else e :: replace name node rest

/-- Changes the table at the end of a path, where tables that are missing come into being with the
origin given.  A dotted key may pass only tables that are not complete. -/
def changeAt (origin : Origin) (change : Origin → Entries → Option Entries) :
    List String → Origin → Entries → Option Entries
  | [], own, entries => change own entries
  | name :: path, _, entries =>
    match lookup? name entries with
    | none => (changeAt origin change path origin []).map fun inner =>
        replace name (.table origin inner) entries
    | some (.table known inner) =>
      if origin = .dotted ∧ known = .header then none
      else (changeAt origin change path known inner).map fun inner =>
        replace name (.table known inner) entries
    | some (.tables (last :: before)) =>
      (changeAt origin change path .header last).map fun last =>
        replace name (.tables (last :: before)) entries
    | some _ => none

/-- Adds a name that must be new to a table. -/
def addNew (name : String) (node : Node) (entries : Entries) : Option Entries :=
  match lookup? name entries with
  | some _ => none
  | none => some (replace name node entries)

/-- Adds a value under a dotted key to the table whose header was read last.  A key without dots
may not add to a table that dotted keys made, nor one with dots to a table made otherwise. -/
def insertKey (path : List String) (name : String) (node : Node) (entries : Entries) :
    Option Entries :=
  changeAt .dotted
    (fun own entries =>
      if path.isEmpty = (own == .dotted) then none else addNew name node entries)
    path .header entries

/-- Makes the table of a header, which must not be complete yet. -/
def openTable (path : List String) (name : String) (entries : Entries) : Option Entries :=
  changeAt .passed
    (fun _ entries =>
      match lookup? name entries with
      | none => some (replace name (.table .header []) entries)
      | some (.table .passed inner) => some (replace name (.table .header inner) entries)
      | some _ => none)
    path .header entries

/-- Makes a new element of an array of tables. -/
def openElement (path : List String) (name : String) (entries : Entries) : Option Entries :=
  changeAt .passed
    (fun _ entries =>
      match lookup? name entries with
      | none => some (replace name (.tables [[]]) entries)
      | some (.tables elements) => some (replace name (.tables ([] :: elements)) entries)
      | some _ => none)
    path .header entries

end Strata.Toml
