import Admission.Toml.Character

/-!
# Quoted texts

A text is quoted in one of four styles: with double or single quotes, on one line or over several.
Only double quotes know escapes. The writer takes the first style in which the text needs no escape
worse than that of a tab, and falls back on double quotes, where everything can be escaped.

## Main definitions

* `readQuoted`: reads a quoted text of any style
* `readKeyText`: reads one that fits on a line
* `Style`, `Style.of`: the styles, and the one that suits a text
* `quote`: writes a quoted text
-/

namespace Admission.Toml

/-! ## Reading -/

/-- Puts a character in front of a text that was read. -/
def push (c : Char) : Option (List Char × List Char) → Option (List Char × List Char)
  | some (text, rest) => some (c :: text, rest)
  | none => none

/-- Reads the code of a character in a number of hexadecimal digits. -/
def readCode (digits : Nat) (cs : List Char) : Option (Char × List Char) :=
  let code := cs.take digits
  if code.length = digits ∧ code.all (isDigitOf 16) then
    let n := ofDigits 16 code
    if n.isValidChar then some (Char.ofNat n, cs.drop digits) else none
  else none

/-- Reads what follows the backslash of an escape. -/
def readEscape : List Char → Option (Char × List Char)
  | 'b' :: rest => some ('\x08', rest)
  | 't' :: rest => some ('\t', rest)
  | 'n' :: rest => some ('\n', rest)
  | 'f' :: rest => some ('\x0c', rest)
  | 'r' :: rest => some ('\r', rest)
  | 'e' :: rest => some ('\x1b', rest)
  | '"' :: rest => some ('"', rest)
  | '\\' :: rest => some ('\\', rest)
  | 'x' :: rest => readCode 2 rest
  | 'u' :: rest => readCode 4 rest
  | 'U' :: rest => readCode 8 rest
  | _ => none

theorem length_readCode {n : Nat} {cs rest : List Char} {c : Char}
    (h : readCode n cs = some (c, rest)) : rest.length ≤ cs.length := by
  unfold readCode at h
  simp only at h
  split at h
  · split at h
    · cases h
      simp
    · cases h
  · cases h

theorem length_readEscape {cs rest : List Char} {c : Char}
    (h : readEscape cs = some (c, rest)) : rest.length < cs.length := by
  unfold readEscape at h
  split at h
  case h_9 | h_10 | h_11 => exact Nat.lt_succ_of_le (length_readCode h)
  case h_12 => cases h
  all_goals
    cases h
    exact Nat.lt_succ_self _

/-- Reads a text in double quotes on one line, after the opening quote. -/
def readDouble (cs : List Char) : Option (List Char × List Char) :=
  match cs with
  | [] => none
  | '"' :: rest => some ([], rest)
  | '\\' :: rest =>
    match _h : readEscape rest with
    | some (c, rest') => push c (readDouble rest')
    | none => none
  | c :: rest => if isPlain c then push c (readDouble rest) else none
termination_by cs.length
decreasing_by
  · have := length_readEscape _h
    simp only [List.length_cons]
    omega
  · simp

/-- Reads a text in single quotes on one line, after the opening quote. -/
def readSingle : List Char → Option (List Char × List Char)
  | [] => none
  | '\'' :: rest => some ([], rest)
  | c :: rest => if isPlain c then push c (readSingle rest) else none

/-- The end of a text over several lines, after three closing quotes. Up to two further quotes
belong to the text, and the last three close it. -/
def closing (q : Char) : List Char → List Char × List Char
  | c :: d :: rest =>
    if c = q then if d = q then ([q, q], rest) else ([q], d :: rest) else ([], c :: d :: rest)
  | [c] => if c = q then ([q], []) else ([], [c])
  | [] => ([], [])

/-- What follows a line end that a backslash takes out of a text, with all blanks and line ends
after it. The characters come after the backslash; blanks may stand between the two. -/
def joinLines? (cs : List Char) : Option (List Char) :=
  (lineBreak? (skipBlanks cs)).map skipLines

theorem length_skipBlanks_le (cs : List Char) : (skipBlanks cs).length ≤ cs.length :=
  (List.dropWhile_sublist _).length_le

theorem length_skipLines_le (cs : List Char) : (skipLines cs).length ≤ cs.length := by
  fun_induction skipLines cs <;> simp_all <;> omega

theorem length_lineBreak {cs rest : List Char} (h : lineBreak? cs = some rest) :
    rest.length < cs.length := by
  unfold lineBreak? at h
  split at h
  · cases h; simp
  · cases h; simp only [List.length_cons]; omega
  · cases h

theorem length_joinLines {cs rest : List Char} (h : joinLines? cs = some rest) :
    rest.length < cs.length := by
  unfold joinLines? at h
  cases hb : lineBreak? (skipBlanks cs) with
  | none => simp [hb] at h
  | some r =>
    simp only [hb, Option.map_some, Option.some.injEq] at h
    have h₁ := length_lineBreak hb
    have h₂ := length_skipBlanks_le cs
    have h₃ := length_skipLines_le r
    rw [h] at h₃
    omega

/-- Reads a text in double quotes over several lines, after the opening quotes. -/
def readDoubleLines (cs : List Char) : Option (List Char × List Char) :=
  match cs with
  | [] => none
  | '"' :: '"' :: '"' :: rest => some (closing '"' rest)
  | '\r' :: '\n' :: rest => push '\r' (push '\n' (readDoubleLines rest))
  | '\n' :: rest => push '\n' (readDoubleLines rest)
  | '\\' :: rest =>
    match _h : joinLines? rest with
    | some rest' => readDoubleLines rest'
    | none =>
      match _h : readEscape rest with
      | some (c, rest') => push c (readDoubleLines rest')
      | none => none
  | c :: rest => if isPlain c then push c (readDoubleLines rest) else none
termination_by cs.length
decreasing_by
  · simp only [List.length_cons]; omega
  · simp
  · have := length_joinLines _h
    simp only [List.length_cons]
    omega
  · have := length_readEscape _h
    simp only [List.length_cons]
    omega
  · simp

/-- Reads a text in single quotes over several lines, after the opening quotes. -/
def readSingleLines : List Char → Option (List Char × List Char)
  | [] => none
  | '\'' :: '\'' :: '\'' :: rest => some (closing '\'' rest)
  | '\r' :: '\n' :: rest => push '\r' (push '\n' (readSingleLines rest))
  | '\n' :: rest => push '\n' (readSingleLines rest)
  | c :: rest => if isPlain c then push c (readSingleLines rest) else none

/-- What follows the opening quotes of a text over several lines: a line end right after them does
not belong to the text. -/
def firstLine (cs : List Char) : List Char := (lineBreak? cs).getD cs

/-- Reads a quoted text that must fit on a line. -/
def readKeyText : List Char → Option (List Char × List Char)
  | '"' :: rest => readDouble rest
  | '\'' :: rest => readSingle rest
  | _ => none

/-- Reads a quoted text. -/
def readQuoted : List Char → Option (List Char × List Char)
  | '"' :: '"' :: '"' :: rest => readDoubleLines (firstLine rest)
  | '\'' :: '\'' :: '\'' :: rest => readSingleLines (firstLine rest)
  | cs => readKeyText cs

/-! ## Writing -/

/-- The styles of quotation. -/
inductive Style where
  | double
  | single
  | doubleLines
  | singleLines
deriving DecidableEq, Repr

/-- Whether a character stands three times in a row in a text. -/
def hasRunOfThree (q : Char) : List Char → Bool
  | a :: b :: c :: rest => (a = q && b = q && c = q) || hasRunOfThree q (b :: c :: rest)
  | _ => false

/-- The style that suits a text. -/
def Style.of (text : List Char) : Style :=
  let controls := text.any fun c => isControl c && c ≠ '\n'
  let lines := text.contains '\n'
  if !controls && !lines && !text.contains '\\' && !text.contains '"' then double
  else if !controls && !lines && !text.contains '\'' then single
  else if !controls && !text.contains '\\' && !hasRunOfThree '"' text then doubleLines
  else if !controls && !hasRunOfThree '\'' text then singleLines
  else if lines then doubleLines
  else double

/-- A digit of a hexadecimal number, in upper case. -/
def hexDigit (n : Nat) : Char :=
  Char.ofNat (if n % 16 < 10 then '0'.toNat + n % 16 else 'A'.toNat + n % 16 - 10)

/-- A character as an escape. -/
def escape (c : Char) : List Char :=
  if c = '\x08' then ['\\', 'b']
  else if c = '\t' then ['\\', 't']
  else if c = '\n' then ['\\', 'n']
  else if c = '\x0c' then ['\\', 'f']
  else if c = '\r' then ['\\', 'r']
  else if c = '"' then ['\\', '"']
  else if c = '\\' then ['\\', '\\']
  else
    ['\\', 'u', hexDigit (c.toNat / 4096), hexDigit (c.toNat / 256), hexDigit (c.toNat / 16),
      hexDigit c.toNat]

/-- Whether a character other than a quote has to be escaped between double quotes. -/
def needsEscape (c : Char) : Bool := isControl c || c = '\t' || c = '\\'

/-- The inside of a text in double quotes on one line. -/
def doubleBody (text : List Char) : List Char :=
  text.flatMap fun c => if needsEscape c || c = '"' then escape c else [c]

/-- The inside of a text in double quotes over several lines. Of the quotes in a row each third one
is escaped; `run` counts those just before that are not. -/
def doubleLinesBody (run : Nat) : List Char → List Char
  | [] => []
  | '"' :: rest =>
    if run = 2 then escape '"' ++ doubleLinesBody 0 rest else '"' :: doubleLinesBody (run + 1) rest
  | '\n' :: rest => '\n' :: doubleLinesBody 0 rest
  | c :: rest => (if needsEscape c then escape c else [c]) ++ doubleLinesBody 0 rest

/-- The opening of a text over several lines: a line end follows the quotes if the text has any. -/
def opening (q : Char) (text : List Char) : List Char :=
  [q, q, q] ++ if text.contains '\n' then ['\n'] else []

/-- Writes a text in a style. -/
def Style.write (text : List Char) : Style → List Char
  | double => ['"'] ++ doubleBody text ++ ['"']
  | single => ['\''] ++ text ++ ['\'']
  | doubleLines => opening '"' text ++ doubleLinesBody 0 text ++ ['"', '"', '"']
  | singleLines => opening '\'' text ++ text ++ ['\'', '\'', '\'']

/-- Writes a text in quotes. -/
def quote (text : List Char) : List Char := (Style.of text).write text

end Admission.Toml
