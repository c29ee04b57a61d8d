import Admission.Toml.Document

/-!
# Writing documents

A document is written as a sequence of sections with an empty line between them. A section is a
header and its settings, one a line.

## Main definitions

* `Setting`: the values that are written, and the scalars that they stand for
* `Section.write`: a section
* `write`: a document
-/

namespace Admission.Toml

/-- A value that is written. -/
inductive Setting where
  | number (n : Nat)
  | truth (b : Bool)
  | text (s : String)
deriving DecidableEq, Repr

namespace Setting

/-- The scalar that a written value stands for. -/
def toScalar : Setting → Scalar
  | number n => .integer n
  | truth b => .boolean b
  | text s => .text s

/-- Writes a value. -/
def write : Setting → List Char
  | number n => Nat.toDigits 10 n
  | truth true => ['t', 'r', 'u', 'e']
  | truth false => ['f', 'a', 'l', 's', 'e']
  | text s => quote s.toList

end Setting

/-- A header and the settings below it. -/
structure Section where
  name : String
  settings : List (String × Setting)
deriving DecidableEq, Repr

namespace Section

/-- Writes the settings. -/
def writeSettings (settings : List (String × Setting)) : List Char :=
  settings.flatMap fun (key, v) => key.toList ++ [' ', '=', ' '] ++ v.write ++ ['\n']

/-- Writes a section. -/
def write (s : Section) : List Char :=
  ['['] ++ s.name.toList ++ [']', '\n'] ++ writeSettings s.settings

end Section

/-- Writes a document. -/
def write (sections : List Section) : String :=
  String.ofList (['\n'].intercalate (sections.map Section.write))

end Admission.Toml
