import Admission.Text.Printable

/-!
# The debug form of values

Values are shown on one line: the name of the type, and its fields in braces. Texts are quoted, with
escapes for characters that are not shown as themselves.

## Main definitions

* `DebugText.quoted`: a text in quotes
* `DebugText.record`, `DebugText.list`, `DebugText.option`: composed values
-/

namespace Admission

namespace DebugText

/-- The code of a character in lower-case hexadecimal digits. -/
def hexCode (c : Char) : List Char := Nat.toDigits 16 c.toNat

/-- A character inside quotes. -/
def escape (c : Char) : List Char :=
  if c = '\x00' then ['\\', '0']
  else if c = '\t' then ['\\', 't']
  else if c = '\r' then ['\\', 'r']
  else if c = '\n' then ['\\', 'n']
  else if c = '"' then ['\\', '"']
  else if c = '\\' then ['\\', '\\']
  else if isPrintable c then [c]
  else ['\\', 'u', '\x7b'] ++ hexCode c ++ ['\x7d']

/-- A text in quotes. -/
def quoted (s : String) : String :=
  String.ofList ('"' :: s.toList.flatMap escape ++ ['"'])

/-- A number in decimal digits. -/
def number (n : UInt64) : String := toString n.toNat

/-- The bytes of a text, as a list of numbers. -/
def bytes (s : String) : String :=
  "[" ++ ", ".intercalate (s.toUTF8.toList.map fun b => toString b.toNat) ++ "]"

/-- A truth value. -/
def bool (b : Bool) : String := if b then "true" else "false"

/-- A list of values in brackets. -/
def list (values : List String) : String := "[" ++ ", ".intercalate values ++ "]"

/-- A value that may be absent. -/
def option : Option String → String
  | some v => "Some(" ++ v ++ ")"
  | none => "None"

/-- A value with named fields. -/
def record (name : String) (fields : List (String × String)) : String :=
  name ++ " \x7b " ++ ", ".intercalate (fields.map fun f => f.1 ++ ": " ++ f.2) ++ " \x7d"

/-- A value whose fields are not shown. -/
def hidden (name : String) : String := name ++ " \x7b .. \x7d"

end DebugText

end Admission
