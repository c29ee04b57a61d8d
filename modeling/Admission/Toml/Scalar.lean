import Admission.Toml.Quoted

/-!
# Scalars

The values without parts: texts, whole numbers, decimal fractions, truth values and moments. A
moment is a date, a time of day, or both. Texts, truth values and moments are read in full at once.
Of a number only the outline is: a number that is too large, or has digits that mean nothing, is a
value all the same, and stands in the way only of those who look at it.

## Main definitions

* `Scalar`: the values without parts
* `Scalar.isMachineSized`: whether a number has a machine representation
* `isOutline`: whether a word has the outline of a whole number
* `Scalar.ofWord?`: the value of a word
* `readScalar`: reads a scalar
-/

namespace Admission.Toml

/-- A number with a fraction or an exponent. -/
inductive Fraction where
  /-- The number `digits * 10 ^ exponent`, up to its sign. -/
  | decimal (digits : Nat) (exponent : Int)
  | infinity
  | undefined
deriving DecidableEq, Repr

/-- The values without parts. -/
inductive Scalar where
  | text (s : String)
  | integer (n : Int)
  /-- A number with a fraction or an exponent. -/
  | fraction (f : Fraction)
  | boolean (b : Bool)
  /-- A date, a time of day, or both, as it was written. -/
  | moment (s : String)
  /-- What has the outline of a whole number and yet is none, as it was written. -/
  | garbled (s : String)
deriving DecidableEq, Repr

/-- Whether a decimal fraction is below half a unit in the last place above the greatest double, so
that it does not round to infinity. Numbers that are far from this bound are told by their
length. -/
def Fraction.isFinite : Fraction → Bool
  | decimal digits exponent =>
    let length : Int := (Nat.toDigits 10 digits).length + exponent
    if digits = 0 || length < 300 then true
    else if 310 < length then false
    else
      let bound := (1 <<< 54 - 1) <<< 970
      digits * Nat.pow 10 exponent.toNat < bound * Nat.pow 10 (-exponent).toNat
  | infinity => true
  | undefined => true

/-- Whether a number has a machine representation: whole numbers of 128 bits, with a sign or
without, and fractions that do not round to infinity. What is garbled has none. -/
def Scalar.isMachineSized : Scalar → Bool
  | integer (.ofNat n) => n < 1 <<< 128
  | integer (.negSucc n) => n < 1 <<< 127
  | fraction f => f.isFinite
  | garbled _ => false
  | _ => true

/-! ## Numbers -/

/-- Digits, without the underscores that may stand between two of them. -/
def ungroup? (isDigit : Char → Bool) : List Char → Option (List Char)
  | [] => none
  | [c] => if isDigit c then some [c] else none
  | c :: '_' :: rest => if isDigit c then (ungroup? isDigit rest).map (c :: ·) else none
  | c :: d :: rest => if isDigit c then (ungroup? isDigit (d :: rest)).map (c :: ·) else none

/-- A number in digits to a base. -/
def natural? (base : Nat) (cs : List Char) : Option Nat :=
  (ungroup? (isDigitOf base) cs).map (ofDigits base)

/-- Decimal digits that do not begin with a zero, unless it is the only one. -/
def decimalDigits? (cs : List Char) : Option (List Char) :=
  match ungroup? Char.isDigit cs with
  | some ('0' :: _ :: _) => none
  | digits => digits

/-- Takes a sign off a number: whether it is negative, and what is left. -/
def splitSign : List Char → Bool × List Char
  | '-' :: rest => (true, rest)
  | '+' :: rest => (false, rest)
  | cs => (false, cs)

/-- A number with its sign. -/
def signed (negative : Bool) (n : Nat) : Int := if negative then -n else n

/-- A whole number. Only decimal ones have a sign. -/
def integer? : List Char → Option Int
  | '0' :: 'x' :: rest => (natural? 16 rest).map Int.ofNat
  | '0' :: 'o' :: rest => (natural? 8 rest).map Int.ofNat
  | '0' :: 'b' :: rest => (natural? 2 rest).map Int.ofNat
  | cs =>
    let (negative, digits) := splitSign cs
    (decimalDigits? digits).map fun digits => signed negative (ofDigits 10 digits)

/-- The exponent after its mark. -/
def exponent? (cs : List Char) : Option Int :=
  let (negative, digits) := splitSign cs
  (ungroup? Char.isDigit digits).map fun digits => signed negative (ofDigits 10 digits)

/-- Whether a character marks an exponent. -/
def marksExponent (c : Char) : Bool := c = 'e' || c = 'E'

/-- A number with a fraction, an exponent, or both. -/
def fraction? (cs : List Char) : Option Fraction :=
  let cs := (splitSign cs).2
  if cs = ['i', 'n', 'f'] then some .infinity
  else if cs = ['n', 'a', 'n'] then some .undefined
  else
    let mantissa := cs.takeWhile (!marksExponent ·)
    let whole := mantissa.takeWhile (· ≠ '.')
    let places := match mantissa.dropWhile (· ≠ '.') with
      | [] => some []
      | _ :: places => ungroup? Char.isDigit places
    let exponent := match cs.dropWhile (!marksExponent ·) with
      | [] => some 0
      | _ :: exponent => exponent? exponent
    match decimalDigits? whole, places, exponent with
    | some whole, some places, some exponent =>
      some (.decimal (ofDigits 10 (whole ++ places)) (exponent - places.length))
    | _, _, _ => none

/-! ## Outlines of numbers -/

/-- Whether every underscore stands between two digits to base sixteen, in what follows a
character. -/
def isGrouped (before : Char) : List Char → Bool
  | [] => before ≠ '_'
  | c :: rest =>
    (c ≠ '_' || isDigitOf 16 before) && (before ≠ '_' || isDigitOf 16 c) && isGrouped c rest

/-- Whether a word is the mark of a base other than ten, with no digits after it. -/
def isBaseMark (cs : List Char) : Bool :=
  cs = ['0', 'x'] || cs = ['0', 'o'] || cs = ['0', 'b']

/-- Whether a word has the outline of a decimal number in groups: digits with no zero at their
front, an underscore, and then anything but a point or the mark of an exponent, if only all
underscores are between digits. -/
def isGroupedOutline (cs : List Char) : Bool :=
  match (splitSign cs).2 with
  | [] => false
  | c :: rest =>
    c.isDigit && c ≠ '0' && (rest.dropWhile Char.isDigit).head? = some '_' &&
      rest.all (fun d => d ≠ '.' && !marksExponent d) && isGrouped c rest

/-- Whether a word has the outline of a whole number, whatever its digits are. -/
def isOutline (cs : List Char) : Bool := isBaseMark cs || isGroupedOutline cs

/-! ## Moments -/

/-- A number of exactly two digits within bounds, and what follows it. -/
def twoDigits? (least greatest : Nat) : List Char → Option (Nat × List Char)
  | a :: b :: rest =>
    let n := ofDigits 10 [a, b]
    if a.isDigit && b.isDigit && least ≤ n && n ≤ greatest then some (n, rest) else none
  | _ => none

/-- What follows a certain character. -/
def after? (mark : Char) : List Char → Option (List Char)
  | c :: rest => if c = mark then some rest else none
  | [] => none

/-- The days of a month. -/
def daysOf (year month : Nat) : Nat :=
  if month = 2 then if year % 4 = 0 ∧ (year % 100 ≠ 0 ∨ year % 400 = 0) then 29 else 28
  else if month = 4 ∨ month = 6 ∨ month = 9 ∨ month = 11 then 30
  else 31

/-- What follows a date. -/
def afterDate? (cs : List Char) : Option (List Char) := do
  let (century, cs) ← twoDigits? 0 99 cs
  let (year, cs) ← twoDigits? 0 99 cs
  let (month, cs) ← twoDigits? 1 12 (← after? '-' cs)
  let (_, cs) ← twoDigits? 1 (daysOf (century * 100 + year) month) (← after? '-' cs)
  return cs

/-- What follows the places of a second, if there are any. -/
def afterPlaces? : List Char → Option (List Char)
  | '.' :: c :: rest => if c.isDigit then some (rest.dropWhile Char.isDigit) else none
  | '.' :: [] => none
  | cs => some cs

/-- What follows a time of day. Seconds may be missing; there is room for a leap second. -/
def afterTime? (cs : List Char) : Option (List Char) := do
  let (_, cs) ← twoDigits? 0 23 cs
  let (_, cs) ← twoDigits? 0 59 (← after? ':' cs)
  match cs with
  | ':' :: cs =>
    let (_, cs) ← twoDigits? 0 60 cs
    afterPlaces? cs
  | cs => return cs

/-- Whether a distance from universal time is written, or nothing. -/
def isOffset : List Char → Bool
  | [] => true
  | [c] => c = 'Z' || c = 'z'
  | c :: rest =>
    let offset := do
      let (_, cs) ← twoDigits? 0 23 rest
      let (_, cs) ← twoDigits? 0 59 (← after? ':' cs)
      return cs
    (c = '+' || c = '-') && offset = some []

/-- Whether a date is written, and nothing else. -/
def isDate (cs : List Char) : Bool := afterDate? cs = some []

/-- Whether a moment is written. -/
def isMoment (cs : List Char) : Bool :=
  match afterDate? cs with
  | some [] => true
  | some (c :: rest) => (c = 'T' || c = 't' || c = ' ') && (afterTime? rest).any isOffset
  | none => afterTime? cs = some []

/-! ## All scalars -/

/-- The value of a word, which is written without quotes. -/
def Scalar.ofWord? (cs : List Char) : Option Scalar :=
  if cs = ['t', 'r', 'u', 'e'] then some (.boolean true)
  else if cs = ['f', 'a', 'l', 's', 'e'] then some (.boolean false)
  else if isMoment cs then some (.moment (String.ofList cs))
  else match integer? cs, fraction? cs with
    | some n, _ => some (.integer n)
    | none, some f => some (.fraction f)
    | none, none => if isOutline cs then some (.garbled (String.ofList cs)) else none

/-- Splits a word off a text. A date and a time of day with one space between them are one word. -/
def splitWord (cs : List Char) : List Char × List Char :=
  let word := cs.takeWhile isWordChar
  match cs.dropWhile isWordChar with
  | ' ' :: c :: rest =>
    if isDate word && c.isDigit then
      (word ++ ' ' :: (c :: rest).takeWhile isWordChar, (c :: rest).dropWhile isWordChar)
    else (word, ' ' :: c :: rest)
  | rest => (word, rest)

/-- Reads a scalar. -/
def readScalar (cs : List Char) : Option (Scalar × List Char) :=
  match cs with
  | [] => none
  | c :: _ =>
    if c = '"' || c = '\'' then
      (readQuoted cs).map fun (text, rest) => (.text (String.ofList text), rest)
    else
      let (word, rest) := splitWord cs
      (Scalar.ofWord? word).map fun s => (s, rest)

end Admission.Toml
