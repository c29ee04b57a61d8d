import Admission.Toml.Scalar

/-!
# Values and tables

A table is made by a header, by the path of a header that lies below it, by the path of a dotted
key, or in braces. How it was made decides what may still be added to it: a table can be defined
only once, and what was made in braces is complete.

## Main definitions

* `Value`: scalars, lists, lists of tables, and tables
* `Origin`: how a table was made
* `Table.change`: changes the table at the end of a path, which is made where it is missing
* `Table.assign?`, `Table.define?`, `Table.append?`: adds a value under a dotted key, a table under
  a header, and a table to a list of tables
-/

namespace Admission.Toml

/-- How a table was made. -/
inductive Origin where
  | header
  /-- By the header of a table below it. -/
  | implied
  | dotted
  | braces
deriving DecidableEq, Repr

/-- The values of a document. -/
inductive Value where
  | scalar (s : Scalar)
  | list (items : List Value)
  /-- A list of tables, each under a header. -/
  | tables (rows : List (List (String × Value)))
  | table (origin : Origin) (entries : List (String × Value))

/-- The entries of a table, in the order of their keys' first appearance. -/
abbrev Table := List (String × Value)

/-- What leads along a path: the header of a table, or a dotted key. -/
inductive Way where
  | header
  | dotted
deriving DecidableEq, Repr

/-- The origin of a table that is made on the way. -/
def Way.origin : Way → Origin
  | header => .implied
  | dotted => .dotted

/-- Whether a way may lead through a table. A dotted key may not lead into a table that has a
header, and nothing leads into braces. -/
def Way.mayEnter : Way → Origin → Bool
  | _, .braces => false
  | .dotted, .header => false
  | _, _ => true

namespace Table

/-- The value under a key. -/
def get? (t : Table) (key : String) : Option Value := t.lookup key

/-- Gives a key another value. -/
def replace (t : Table) (key : String) (v : Value) : Table :=
  t.map fun e => if e.1 = key then (key, v) else e

/-- Adds a key, which must be new. -/
def insert? (t : Table) (key : String) (v : Value) : Option Table :=
  match t.get? key with
  | some _ => none
  | none => some (t ++ [(key, v)])

/-- Changes the table at the end of a path. Tables that are missing are made on the way, and of a
list of tables the path leads to the last. -/
def change (way : Way) (f : Origin → Table → Option Table) (origin : Origin) :
    List String → Table → Option Table
  | [], t => f origin t
  | key :: path, t =>
    match t.get? key with
    | none => do
      let new ← change way f way.origin path []
      return t ++ [(key, .table way.origin new)]
    | some (.table inner entries) =>
      if way.mayEnter inner then do
        let new ← change way f inner path entries
        return t.replace key (.table inner new)
      else none
    | some (.tables rows) =>
      match rows.getLast? with
      | some row => do
        let new ← change way f .header path row
        return t.replace key (.tables (rows.dropLast ++ [new]))
      | none => none
    | some _ => none

/-- Adds a value under a dotted key. The table that it goes into must be made by dotted keys too. -/
def assign? (path : List String) (key : String) (v : Value) (t : Table) : Option Table :=
  change .dotted (fun origin inner =>
    if path.isEmpty || origin = .dotted then inner.insert? key v else none) .header path t

/-- Defines the table under a header. It must be new, or made only by the headers of tables
below. -/
def define? (path : List String) (key : String) (t : Table) : Option Table :=
  change .header (fun _ inner =>
    match inner.get? key with
    | none => some (inner ++ [(key, .table .header [])])
    | some (.table .implied entries) => some (inner.replace key (.table .header entries))
    | some _ => none) .header path t

/-- Adds a table to the list of tables under a header, which must be new or such a list already. -/
def append? (path : List String) (key : String) (t : Table) : Option Table :=
  change .header (fun _ inner =>
    match inner.get? key with
    | none => some (inner ++ [(key, .tables [[]])])
    | some (.tables rows) => some (inner.replace key (.tables (rows ++ [[]])))
    | some _ => none) .header path t

/-- The table of the entries in braces. -/
def ofEntries? (entries : List (List String × String × Value)) : Option Table :=
  entries.foldlM (fun t (path, key, v) => t.assign? path key v) []

end Table

mutual

/-- Whether all numbers of a value have a machine representation. -/
def Value.isMachineSized : Value → Bool
  | .scalar s => s.isMachineSized
  | .list items => Value.allMachineSized items
  | .tables rows => Table.allMachineSized rows
  | .table _ entries => Table.isMachineSized entries

/-- Whether this holds for the items of a list. -/
def Value.allMachineSized : List Value → Bool
  | [] => true
  | v :: rest => v.isMachineSized && Value.allMachineSized rest

/-- Whether this holds for the tables of a list. -/
def Table.allMachineSized : List (List (String × Value)) → Bool
  | [] => true
  | t :: rest => Table.isMachineSized t && Table.allMachineSized rest

/-- Whether this holds for the entries of a table. -/
def Table.isMachineSized : List (String × Value) → Bool
  | [] => true
  | (_, v) :: rest => v.isMachineSized && Table.isMachineSized rest

end

end Admission.Toml
