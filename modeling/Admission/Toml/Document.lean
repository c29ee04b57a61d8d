import Admission.Toml.Table

/-!
# Documents

A document is a sequence of statements, one a line: headers, which choose the table that follows,
and assignments of values to keys.

## Main definitions

* `readKeys`, `readValue`: reads dotted keys, and values
* `Statement`, `readStatements`: the statements, and how they are read
* `Table.ofStatements?`: the table that statements build up
* `parse`: the table of a document
-/

namespace Admission.Toml

/-! ## Keys and values -/

/-- Reads one part of a dotted key. -/
def readKey (cs : List Char) : Option (String × List Char) :=
  match readKeyText cs with
  | some (text, rest) => some (String.ofList text, rest)
  | none =>
    match cs.takeWhile isKeyChar with
    | [] => none
    | key => some (String.ofList key, cs.dropWhile isKeyChar)

/-- Reads a dotted key of at most the given number of parts: the path, and the last part. -/
def readParts : Nat → List Char → Option ((List String × String) × List Char)
  | 0, _ => none
  | parts + 1, cs =>
    match readKey cs with
    | none => none
    | some (key, rest) =>
      match skipBlanks rest with
      | '.' :: rest =>
        match readParts parts (skipBlanks rest) with
        | some ((path, last), rest) => some ((key :: path, last), rest)
        | none => none
      | rest => some (([], key), rest)

/-- How many parts a dotted key may have. -/
def maxParts : Nat := 80

/-- Reads a dotted key: the path, and the last part. -/
def readKeys (cs : List Char) : Option ((List String × String) × List Char) := readParts maxParts cs

/-- Reads an assignment of what a reader reads to a dotted key. What may stand on both sides of the
equals sign is passed over by `gap`. -/
def readAssignment {α : Type} (gap : List Char → List Char)
    (value : List Char → Option (α × List Char)) (cs : List Char) :
    Option ((List String × String × α) × List Char) :=
  match readKeys cs with
  | some ((path, key), rest) =>
    match gap rest with
    | '=' :: rest =>
      match value (gap rest) with
      | some (v, rest) => some ((path, key, v), rest)
      | none => none
    | _ => none
  | none => none

/-- Reads items up to a closing bracket. Commas separate them, and one may follow the last. -/
def readItems {α : Type} (item : List Char → Option (α × List Char)) (close : Char)
    (cs : List Char) : Option (List α × List Char) :=
  match skipSpace false cs with
  | [] => none
  | c :: rest =>
    if c = close then some ([], rest)
    else match item (c :: rest) with
      | none => none
      | some (a, rest) =>
        match skipSpace false rest with
        | [] => none
        | c :: rest =>
          if c = close then some ([a], rest)
          else if c = ',' ∧ rest.length < cs.length then
            match readItems item close rest with
            | some (items, rest) => some (a :: items, rest)
            | none => none
          else none
termination_by cs.length

/-- Reads a value with lists and tables in it that are nested at most `depth` deep. Within brackets
and braces a line may end wherever a blank may stand, but not inside a dotted key. -/
def readValue : Nat → List Char → Option (Value × List Char)
  | 0, cs => (readScalar cs).map fun (s, rest) => (.scalar s, rest)
  | depth + 1, cs =>
    match cs with
    | '[' :: rest =>
      match readItems (readValue depth) ']' rest with
      | some (items, rest) => some (.list items, rest)
      | none => none
    | '\x7b' :: rest =>
      match readItems (readAssignment (skipSpace false) (readValue depth)) '\x7d' rest with
      | some (entries, rest) => (Table.ofEntries? entries).map fun t => (.table .braces t, rest)
      | none => none
    | cs => (readScalar cs).map fun (s, rest) => (.scalar s, rest)

/-- How deep values may be nested. -/
def maxDepth : Nat := 80

/-! ## Statements -/

/-- A statement of a document. -/
inductive Statement where
  | header (path : List String) (key : String)
  /-- A table that is added to the list under a header follows. -/
  | row (path : List String) (key : String)
  /-- A key of the present table has a value. -/
  | assign (path : List String) (key : String) (v : Value)

/-- Reads the keys of a header between blanks. -/
def readHeader (cs : List Char) : Option ((List String × String) × List Char) :=
  readKeys (skipBlanks cs)

/-- Reads a statement. -/
def readStatement : List Char → Option (Statement × List Char)
  | '[' :: '[' :: rest =>
    match readHeader rest with
    | some ((path, key), ']' :: ']' :: rest) => some (.row path key, rest)
    | _ => none
  | '[' :: rest =>
    match readHeader rest with
    | some ((path, key), ']' :: rest) => some (.header path key, rest)
    | _ => none
  | cs =>
    (readAssignment skipBlanks (readValue maxDepth) cs).map fun ((path, key, v), rest) =>
      (.assign path key v, rest)

/-- Reads all statements, each on a line of its own. -/
def readStatements (cs : List Char) : Option (List Statement) :=
  match skipSpace false cs with
  | [] => some []
  | c :: rest =>
    match readStatement (c :: rest) with
    | none => none
    | some (s, rest) =>
      match lineEnd? rest with
      | none => none
      | some rest =>
        if rest.length < cs.length then (readStatements rest).map (s :: ·) else none
termination_by cs.length

/-! ## Documents -/

/-- The table that is built up by statements, with the path of the present table. -/
structure Draft where
  root : Table := []
  /-- The path of the table that assignments go into. -/
  here : List String := []

/-- Adds a statement. -/
def Draft.add? (d : Draft) : Statement → Option Draft
  | .header path key => do return ⟨← d.root.define? path key, path ++ [key]⟩
  | .row path key => do return ⟨← d.root.append? path key, path ++ [key]⟩
  | .assign path key v => do
    let root ← Table.change .header (fun _ t => Table.assign? path key v t) .header d.here d.root
    return { d with root }

/-- The table that statements build up. -/
def Table.ofStatements? (statements : List Statement) : Option Table :=
  (statements.foldlM Draft.add? {}).map Draft.root

/-- A text without the mark of its byte order. -/
def skipMark : List Char → List Char
  | '\ufeff' :: rest => rest
  | cs => cs

/-- The table of a document. -/
def parse (text : String) : Option Table := do
  Table.ofStatements? (← readStatements (skipMark text.toList))

end Admission.Toml
