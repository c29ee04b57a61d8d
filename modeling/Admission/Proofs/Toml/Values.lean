import Admission.Proofs.Toml.Quotes
import Admission.Toml.Writer

/-!
# Written values are read back

A value is written as a word or in quotes, and a line end follows it. The word of a number consists
of digits only, the first of which is zero for no number but zero itself. Such a word has no mark of
a base, no sign, and none of the marks of a date or a time of day, so that it can be read as nothing
but a whole number.

## Main results

* `ofDigits_toDigits`: digits stand for the number that they are the digits of
* `isMoment_eq_false`: a word without the marks of dates and times is no moment
* `integer?_toDigits`: digits are read as a whole number
* `readScalar_write`: written values are read back
-/

namespace Admission.Toml

/-! ## Digits -/

theorem not_mem_toDigits {c : Char} (h : c.isDigit = false) (n : Nat) : c ∉ Nat.toDigits 10 n := by
  intro hc
  rw [Nat.isDigit_of_mem_toDigits (by decide) (by decide) hc] at h
  cases h

theorem digitValue?_of_isDigit {c : Char} (h : c.isDigit = true) :
    digitValue? c = some (c.toNat - '0'.toNat) := by
  rw [digitValue?, if_pos]
  simpa [Char.isDigit, Char.le_def, UInt32.le_iff_toNat_le] using h

/-- Digits stand for the number that they are the digits of. -/
theorem ofDigits_toDigits (n : Nat) : ofDigits 10 (Nat.toDigits 10 n) = n := by
  have hstep (digits : List Char) (h : ∀ c ∈ digits, c.isDigit = true) (start : Nat) :
      digits.foldl (fun n c => n * 10 + (digitValue? c).getD 0) start =
        Nat.ofDigitChars 10 digits start := by
    induction digits generalizing start with
    | nil => rfl
    | cons c digits ih =>
      rw [List.foldl_cons, Nat.ofDigitChars_cons, digitValue?_of_isDigit (h c List.mem_cons_self),
        Option.getD_some, Nat.mul_comm]
      exact ih (fun d hd => h d (List.mem_cons_of_mem c hd)) _
  rw [ofDigits, hstep _ (fun c => Nat.isDigit_of_mem_toDigits (by decide) (by decide)),
    Nat.ofDigitChars_ten_toDigits]

/-- Only the digits of zero begin with a zero. -/
theorem eq_zero_of_head?_toDigits {n : Nat} (h : (Nat.toDigits 10 n).head? = some '0') : n = 0 := by
  induction n using Nat.strongRecOn with
  | ind n ih =>
    rw [Nat.toDigits_eq_if (by decide)] at h
    split at h
    · simpa using h
    · have hzero := ih (n / 10) (by omega) (by
        rw [List.head?_append] at h
        cases hdigits : Nat.toDigits 10 (n / 10) with
        | nil => exact absurd hdigits Nat.toDigits_ne_nil
        | cons c cs => simpa [hdigits] using h)
      omega

theorem ungroup?_of_all {p : Char → Bool} (hp : p '_' = false) {cs : List Char} (hne : cs ≠ [])
    (h : ∀ c ∈ cs, p c = true) : ungroup? p cs = some cs := by
  fun_induction ungroup? p cs with
  | case1 => exact absurd rfl hne
  | case2 c hc => rfl
  | case3 c hc => exact absurd (h c List.mem_cons_self) hc
  | case4 c rest hc ih =>
    rw [h '_' (by simp)] at hp
    cases hp
  | case5 c rest hc => exact absurd (h c List.mem_cons_self) hc
  | case6 c d rest _ hc ih =>
    rw [ih (by simp) fun e he => h e (List.mem_cons_of_mem c he), Option.map_some]
  | case7 c d rest _ hc => exact absurd (h c List.mem_cons_self) hc

/-- Digits of a number are grouped in no way and begin with no zero that could be left out. -/
theorem decimalDigits?_toDigits (n : Nat) :
    decimalDigits? (Nat.toDigits 10 n) = some (Nat.toDigits 10 n) := by
  rw [decimalDigits?, ungroup?_of_all rfl Nat.toDigits_ne_nil fun c =>
    Nat.isDigit_of_mem_toDigits (by decide) (by decide)]
  split
  · rename_i h
    rw [Option.some.injEq] at h
    have hzero : n = 0 := eq_zero_of_head?_toDigits (by rw [h, List.head?_cons])
    rw [hzero, Nat.toDigits_zero] at h
    cases h
  · rfl

/-- Digits are read as a whole number. -/
theorem integer?_toDigits (n : Nat) : integer? (Nat.toDigits 10 n) = some (n : Int) := by
  have hno (c : Char) (h : c.isDigit = false) : c ∉ Nat.toDigits 10 n := not_mem_toDigits h n
  have hsign : splitSign (Nat.toDigits 10 n) = (false, Nat.toDigits 10 n) := by
    unfold splitSign
    split
    · rename_i h
      exact absurd (h ▸ List.mem_cons_self) (hno '-' rfl)
    · rename_i h
      exact absurd (h ▸ List.mem_cons_self) (hno '+' rfl)
    · rfl
  unfold integer?
  split
  · rename_i h
    exact absurd (h ▸ by simp) (hno 'x' rfl)
  · rename_i h
    exact absurd (h ▸ by simp) (hno 'o' rfl)
  · rename_i h
    exact absurd (h ▸ by simp) (hno 'b' rfl)
  · rw [hsign]
    simp only [decimalDigits?_toDigits, Option.map_some, ofDigits_toDigits]
    rfl

/-! ## Moments -/

theorem subset_of_twoDigits? {least greatest n : Nat} {cs rest : List Char}
    (h : twoDigits? least greatest cs = some (n, rest)) : rest ⊆ cs := by
  unfold twoDigits? at h
  split at h
  · simp only at h
    split at h
    · cases h
      exact fun c hc => List.mem_cons_of_mem _ (List.mem_cons_of_mem _ hc)
    · cases h
  · cases h

theorem after?_eq_none {mark : Char} {cs : List Char} (h : mark ∉ cs) : after? mark cs = none := by
  cases cs with
  | nil => rfl
  | cons c rest =>
    rw [after?, if_neg]
    rintro rfl
    exact h List.mem_cons_self

/-- A date has a hyphen after the year. -/
theorem afterDate?_eq_none {cs : List Char} (h : '-' ∉ cs) : afterDate? cs = none := by
  unfold afterDate?
  cases hcentury : twoDigits? 0 99 cs with
  | none => rfl
  | some century =>
    obtain ⟨_, cs'⟩ := century
    cases hyear : twoDigits? 0 99 cs' with
    | none => simp [hyear]
    | some year =>
      have hrest : '-' ∉ year.2 := fun hc =>
        h (subset_of_twoDigits? hcentury (subset_of_twoDigits? hyear hc))
      simp [hyear, after?_eq_none hrest]

/-- A time of day has a colon after the hour. -/
theorem afterTime?_eq_none {cs : List Char} (h : ':' ∉ cs) : afterTime? cs = none := by
  unfold afterTime?
  cases hhour : twoDigits? 0 23 cs with
  | none => rfl
  | some hour =>
    have hrest : ':' ∉ hour.2 := fun hc => h (subset_of_twoDigits? hhour hc)
    simp [after?_eq_none hrest]

/-- A word without the marks of dates and times of day is no moment. -/
theorem isMoment_eq_false {cs : List Char} (hdate : '-' ∉ cs) (htime : ':' ∉ cs) :
    isMoment cs = false := by
  simp [isMoment, afterDate?_eq_none hdate, afterTime?_eq_none htime]

/-! ## Words -/

/-- A line end comes right after a value. -/
theorem splitWord_line {word : List Char} (h : ∀ c ∈ word, isWordChar c = true) (rest : List Char) :
    splitWord (word ++ '\n' :: rest) = (word, '\n' :: rest) := by
  have hend : isWordChar '\n' = false := by decide
  rw [splitWord, List.takeWhile_append_of_pos h, List.dropWhile_append_of_pos h,
    List.takeWhile_cons_of_neg (by simp [hend]), List.dropWhile_cons_of_neg (by simp [hend]),
    List.append_nil]
  rfl

theorem isWordChar_of_isDigit {c : Char} (h : c.isDigit = true) : isWordChar c = true := by
  have hne {d : Char} (hd : d.isDigit = false) : c ≠ d := by
    rintro rfl
    rw [h] at hd
    cases hd
  simp [isWordChar, endsWord, isBlank, hne]

theorem ofWord?_toDigits (n : Nat) : Scalar.ofWord? (Nat.toDigits 10 n) = some (.integer n) := by
  have hne {word : List Char} {c : Char} (hc : c ∈ word) (hd : c.isDigit = false) :
      Nat.toDigits 10 n ≠ word := by
    rintro rfl
    exact not_mem_toDigits hd n hc
  rw [Scalar.ofWord?, if_neg (hne List.mem_cons_self rfl), if_neg (hne List.mem_cons_self rfl),
    if_neg, integer?_toDigits]
  rw [isMoment_eq_false (not_mem_toDigits rfl n) (not_mem_toDigits rfl n)]
  decide

/-- A word is read as a scalar if it begins with no quote. -/
theorem readScalar_word {word : List Char} (hne : word ≠ []) (h : ∀ c ∈ word, isWordChar c = true)
    (hdouble : '"' ∉ word) (hsingle : '\'' ∉ word) {s : Scalar} (hs : Scalar.ofWord? word = some s)
    (rest : List Char) : readScalar (word ++ '\n' :: rest) = some (s, '\n' :: rest) := by
  cases word with
  | nil => exact absurd rfl hne
  | cons c word =>
    rw [List.mem_cons, not_or] at hdouble hsingle
    rw [List.cons_append, readScalar, if_neg, ← List.cons_append, splitWord_line h]
    · simp only [hs, Option.map_some]
    · rw [Bool.or_eq_true, decide_eq_true_eq, decide_eq_true_eq]
      rintro (rfl | rfl)
      · exact hdouble.1 rfl
      · exact hsingle.1 rfl

/-! ## Values -/

/-- A quotation begins with a quote, by which it is told from a word. -/
theorem exists_quote_eq_cons (text : List Char) :
    ∃ q cs, quote text = q :: cs ∧ (q = '"' ∨ q = '\'') := by
  unfold quote
  cases Style.of text with
  | double => exact ⟨'"', _, rfl, .inl rfl⟩
  | single => exact ⟨'\'', _, rfl, .inr rfl⟩
  | doubleLines => exact ⟨'"', _, rfl, .inl rfl⟩
  | singleLines => exact ⟨'\'', _, rfl, .inr rfl⟩

theorem readScalar_quote (text : List Char) {rest : List Char} (h : NoQuote rest) :
    readScalar (quote text ++ rest) = some (.text (String.ofList text), rest) := by
  have hread := readQuoted_quote text h
  obtain ⟨q, cs, hquote, hq⟩ := exists_quote_eq_cons text
  rw [hquote, List.cons_append] at hread ⊢
  rw [readScalar, if_pos (by simpa using hq), hread, Option.map_some]

/-- **A written value is read back**, up to the end of its line. -/
theorem readScalar_write (v : Setting) (rest : List Char) :
    readScalar (v.write ++ '\n' :: rest) = some (v.toScalar, '\n' :: rest) := by
  cases v with
  | number n =>
    exact readScalar_word Nat.toDigits_ne_nil
      (fun c hc => isWordChar_of_isDigit (Nat.isDigit_of_mem_toDigits (by decide) (by decide) hc))
      (not_mem_toDigits rfl n) (not_mem_toDigits rfl n) (ofWord?_toDigits n) rest
  | truth b =>
    cases b with
    | false =>
      exact readScalar_word (by decide) (List.all_eq_true.mp rfl) (by decide) (by decide)
        (show Scalar.ofWord? ['f', 'a', 'l', 's', 'e'] = some (.boolean false) from rfl) rest
    | true =>
      exact readScalar_word (by decide) (List.all_eq_true.mp rfl) (by decide) (by decide)
        (show Scalar.ofWord? ['t', 'r', 'u', 'e'] = some (.boolean true) from rfl) rest
  | text s =>
    rw [Setting.write, readScalar_quote s.toList ⟨by simp, by simp⟩, String.ofList_toList]
    rfl

end Admission.Toml
