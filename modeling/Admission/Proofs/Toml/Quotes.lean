import Admission.Toml.Quoted
import Mathlib.Tactic.SplitIfs

/-!
# Quoted texts are read back

Whatever a text holds, its quotation in the style that suits it is read as this text, and what
follows the quotation is left over, if it does not begin with a quote.

Between double quotes every character that could not stand for itself is escaped, so this style
works for any text. The other styles write characters as they are and are taken only where that does
no harm: a line end or a control where none may stand, or the closing quotes. Over several lines a
text may even end with one or two quotes. They come before the three that close it, and the reader
takes the first three of them all as the end and gives the rest back to the text.

## Main definitions

* `NoQuote`: what may follow a quotation

## Main results

* `readEscape_escape`: escapes
* `readDouble_doubleBody`, `readSingle_append`: the styles for one line
* `readDoubleLines_body`, `readSingleLines_append`: the styles for several lines
* `readQuoted_quote`: the style that suits a text
-/

namespace Admission.Toml

/-! ## Characters -/

theorem isPlain_of_needsEscape_eq_false {c : Char} (h : needsEscape c = false) :
    isPlain c = true ∧ c ≠ '\\' := by
  simp only [needsEscape, Bool.or_eq_false_iff, decide_eq_false_iff_not] at h
  exact ⟨by simp [isPlain, h.1.1], h.2⟩

theorem isPlain_of_not_control {c : Char} (h : isControl c = false) : isPlain c = true := by
  simp [isPlain, h]

/-- A plain character is neither a line feed nor a carriage return. -/
theorem ne_of_isPlain {c : Char} (h : isPlain c = true) : c ≠ '\n' ∧ c ≠ '\r' := by
  constructor
  · rintro rfl
    exact absurd h (by decide)
  · rintro rfl
    exact absurd h (by decide)

/-! ## Escapes -/

theorem digitValue?_hexDigit (n : Nat) : digitValue? (hexDigit n) = some (n % 16) := by
  have hsmall : ∀ m, m < 16 → digitValue? (hexDigit m) = some m := by decide
  have hmod : hexDigit n = hexDigit (n % 16) := by rw [hexDigit, hexDigit, Nat.mod_mod]
  rw [hmod]
  exact hsmall _ (Nat.mod_lt n (by decide))

theorem readCode_hexDigits {c : Char} (h : c.toNat < 65536) (rest : List Char) :
    readCode 4 (hexDigit (c.toNat / 4096) :: hexDigit (c.toNat / 256) :: hexDigit (c.toNat / 16) ::
      hexDigit c.toNat :: rest) = some (c, rest) := by
  have hvalue : ofDigits 16 [hexDigit (c.toNat / 4096), hexDigit (c.toNat / 256),
      hexDigit (c.toNat / 16), hexDigit c.toNat] = c.toNat := by
    simp only [ofDigits, List.foldl_cons, List.foldl_nil, digitValue?_hexDigit, Option.getD_some]
    omega
  have hdigit (n : Nat) : isDigitOf 16 (hexDigit n) = true := by
    simpa [isDigitOf, digitValue?_hexDigit] using Nat.mod_lt n (by decide)
  have hvalid : c.toNat.isValidChar := c.valid
  simp [readCode, hvalue, hdigit, hvalid]

/-- What follows the backslash of an escape. -/
def escapeMark (c : Char) : List Char := (escape c).tail

theorem escape_eq (c : Char) : escape c = '\\' :: escapeMark c := by
  unfold escapeMark escape
  split_ifs
  all_goals rfl

/-- An escape is read as the character that it stands for. -/
theorem readEscape_escape {c : Char} (h : c.toNat < 65536) (rest : List Char) :
    readEscape (escapeMark c ++ rest) = some (c, rest) := by
  unfold escapeMark escape
  split_ifs with hb ht hn hf hr hq hs
  · subst hb; rfl
  · subst ht; rfl
  · subst hn; rfl
  · subst hf; rfl
  · subst hr; rfl
  · subst hq; rfl
  · subst hs; rfl
  · exact readCode_hexDigits h rest

/-- An escape never takes a line end out of a text. -/
theorem joinLines?_escape (c : Char) (rest : List Char) :
    joinLines? (escapeMark c ++ rest) = none := by
  unfold escapeMark escape
  split_ifs
  all_goals rfl

theorem toNat_lt_of_needsEscape {c : Char} (h : needsEscape c = true) : c.toNat < 65536 := by
  simp only [needsEscape, isControl, Bool.or_eq_true, Bool.and_eq_true, decide_eq_true_eq] at h
  rcases h with ((⟨h, -⟩ | rfl) | rfl) | rfl
  · omega
  · decide
  · decide
  · decide

/-! ## One line -/

theorem readDouble_escape {cs rest : List Char} {c : Char} (h : readEscape cs = some (c, rest)) :
    readDouble ('\\' :: cs) = push c (readDouble rest) := by
  rw [readDouble]
  split
  · rename_i h'
    rw [h] at h'
    cases h'
    rfl
  · rename_i h'
    rw [h] at h'
    cases h'

theorem readDouble_plain {c : Char} (hc : isPlain c = true) (hq : c ≠ '"') (hb : c ≠ '\\')
    (rest : List Char) : readDouble (c :: rest) = push c (readDouble rest) := by
  rw [readDouble]
  · rw [if_pos hc]
  · exact hq
  · exact hb

/-- **Double quotes on one line** hold any text. -/
theorem readDouble_doubleBody (text rest : List Char) :
    readDouble (doubleBody text ++ '"' :: rest) = some (text, rest) := by
  induction text with
  | nil =>
    rw [doubleBody, List.flatMap_nil, List.nil_append, readDouble]
  | cons c text ih =>
    rw [doubleBody, List.flatMap_cons, List.append_assoc]
    split_ifs with h
    · have hcode : c.toNat < 65536 := by
        rcases Bool.or_eq_true_iff.mp h with h | h
        · exact toNat_lt_of_needsEscape h
        · rw [of_decide_eq_true h]
          decide
      rw [escape_eq, List.cons_append, readDouble_escape (readEscape_escape hcode _)]
      exact congrArg (push c) ih
    · rw [Bool.or_eq_true, not_or, Bool.not_eq_true, decide_eq_true_eq] at h
      obtain ⟨hplain, hb⟩ := isPlain_of_needsEscape_eq_false h.1
      rw [List.singleton_append, readDouble_plain hplain h.2 hb]
      exact congrArg (push c) ih

/-- **Single quotes on one line** hold a text of plain characters other than themselves. -/
theorem readSingle_append {text : List Char} (h : ∀ c ∈ text, isPlain c = true ∧ c ≠ '\'')
    (rest : List Char) : readSingle (text ++ '\'' :: rest) = some (text, rest) := by
  induction text with
  | nil => rfl
  | cons c text ih =>
    obtain ⟨⟨hc, hq⟩, htext⟩ := List.forall_mem_cons.mp h
    rw [List.cons_append, readSingle]
    · rw [if_pos hc, ih htext]
      rfl
    · exact hq

/-! ## Several lines -/

/-- Up to two quotes before the three that close a text belong to it. -/
theorem closing_quotes {q : Char} {rest : List Char} (h : rest.head? ≠ some q) {n : Nat}
    (hn : n ≤ 2) :
    closing q (List.replicate n q ++ rest) = (List.replicate n q, rest) := by
  obtain rfl | rfl | rfl : n = 0 ∨ n = 1 ∨ n = 2 := by omega
  · rcases rest with _ | ⟨c, _ | ⟨d, rest⟩⟩
    · rfl
    all_goals
      have hc : c ≠ q := fun e => h (congrArg some e)
      simp [closing, hc]
  · rcases rest with _ | ⟨c, rest⟩
    · simp [closing]
    · have hc : c ≠ q := fun e => h (congrArg some e)
      simp [closing, hc]
  · simp [closing, List.replicate]

/-- Whether a text begins with two certain characters. -/
def beginsWithTwo (q : Char) : List Char → Bool
  | a :: b :: _ => a = q && b = q
  | _ => false

theorem readDoubleLines_newline (rest : List Char) :
    readDoubleLines ('\n' :: rest) = push '\n' (readDoubleLines rest) := by
  rw [readDoubleLines]

theorem readDoubleLines_escape {cs rest : List Char} {c : Char} (hj : joinLines? cs = none)
    (h : readEscape cs = some (c, rest)) :
    readDoubleLines ('\\' :: cs) = push c (readDoubleLines rest) := by
  rw [readDoubleLines]
  split
  · rename_i h'
    rw [hj] at h'
    cases h'
  · split
    · rename_i h'
      rw [h] at h'
      cases h'
      rfl
    · rename_i h'
      rw [h] at h'
      cases h'

theorem readDoubleLines_plain {c : Char} (hc : isPlain c = true) (hb : c ≠ '\\') {rest : List Char}
    (hq : c = '"' → beginsWithTwo '"' rest = false) :
    readDoubleLines (c :: rest) = push c (readDoubleLines rest) := by
  rw [readDoubleLines]
  · rw [if_pos hc]
  · rintro r rfl rfl
    cases hq rfl
  · rintro r rfl rfl
    exact (ne_of_isPlain hc).2 rfl
  · exact (ne_of_isPlain hc).1
  · exact hb

/-- Up to two quotes before another character belong to the text. -/
theorem readDoubleLines_quotes {c : Char} (hc : c ≠ '"') (rest : List Char) {n : Nat} (hn : n ≤ 2) :
    readDoubleLines (List.replicate n '"' ++ c :: rest) =
      n.repeat (push '"') (readDoubleLines (c :: rest)) := by
  obtain rfl | rfl | rfl : n = 0 ∨ n = 1 ∨ n = 2 := by omega
  · rfl
  · change readDoubleLines ('"' :: c :: rest) = push '"' (readDoubleLines (c :: rest))
    refine readDoubleLines_plain rfl (by decide) fun _ => ?_
    cases rest <;> simp [beginsWithTwo, hc]
  · change readDoubleLines ('"' :: '"' :: c :: rest) =
      push '"' (push '"' (readDoubleLines (c :: rest)))
    rw [readDoubleLines_plain rfl (by decide) fun _ => ?_]
    · congr 1
      refine readDoubleLines_plain rfl (by decide) fun _ => ?_
      cases rest <;> simp [beginsWithTwo, hc]
    · simp [beginsWithTwo, hc]

theorem repeat_push (q : Char) (n : Nat) (text rest : List Char) :
    n.repeat (push q) (some (text, rest)) = some (List.replicate n q ++ text, rest) := by
  induction n with
  | zero => rfl
  | succ n ih =>
    rw [Nat.repeat, ih, List.replicate_succ]
    rfl

theorem replicate_append_three (q : Char) (n : Nat) (rest : List Char) :
    List.replicate n q ++ q :: q :: q :: rest = q :: q :: q :: (List.replicate n q ++ rest) := by
  induction n with
  | zero => rfl
  | succ n ih => rw [List.replicate_succ, List.cons_append, ih, List.cons_append]

/-- **Double quotes over several lines** hold any text. The induction is on the text, and `run`
quotes that the writer has left as they are come before it. -/
theorem readDoubleLines_body (text : List Char) {rest : List Char} (hrest : rest.head? ≠ some '"')
    {run : Nat} (hrun : run ≤ 2) :
    readDoubleLines
      (List.replicate run '"' ++ (doubleLinesBody run text ++ '"' :: '"' :: '"' :: rest)) =
      some (List.replicate run '"' ++ text, rest) := by
  induction text generalizing run with
  | nil =>
    rw [doubleLinesBody, List.nil_append, replicate_append_three, readDoubleLines,
      closing_quotes hrest hrun, List.append_nil]
  | cons c text ih =>
    -- Whatever comes now but another quote leaves the quotes before it to the text.
    have hfresh {before : List Char} {d : Char} (hd : d ≠ '"')
        (h : readDoubleLines (d :: before) = push c (readDoubleLines
          (doubleLinesBody 0 text ++ '"' :: '"' :: '"' :: rest))) :
        readDoubleLines (List.replicate run '"' ++ d :: before) =
          some (List.replicate run '"' ++ c :: text, rest) := by
      have hlater := ih (Nat.zero_le 2)
      rw [List.replicate_zero, List.nil_append, List.nil_append] at hlater
      rw [readDoubleLines_quotes hd before hrun, h, hlater, push, repeat_push]
    by_cases hq : c = '"'
    · subst hq
      rw [doubleLinesBody]
      split_ifs with htwo
      · rw [List.append_assoc, escape_eq]
        exact hfresh (by decide) (readDoubleLines_escape (joinLines?_escape _ _)
          (readEscape_escape (by decide) _))
      · have hnext := @ih (run + 1) (by omega)
        rwa [List.replicate_succ', List.append_assoc, List.append_assoc] at hnext
    · by_cases hn : c = '\n'
      · subst hn
        rw [doubleLinesBody]
        exact hfresh (by decide) (readDoubleLines_newline _)
      · rw [doubleLinesBody]
        · split_ifs with h
          · rw [List.append_assoc, escape_eq]
            exact hfresh (by decide) (readDoubleLines_escape (joinLines?_escape _ _)
              (readEscape_escape (toNat_lt_of_needsEscape h) _))
          · obtain ⟨hplain, hb⟩ := isPlain_of_needsEscape_eq_false (Bool.eq_false_iff.mpr h)
            exact hfresh hq (readDoubleLines_plain hplain hb fun e => absurd e hq)
        · exact hq
        · exact hn

theorem readSingleLines_newline (rest : List Char) :
    readSingleLines ('\n' :: rest) = push '\n' (readSingleLines rest) := by
  rw [readSingleLines]

theorem readSingleLines_plain {c : Char} (hc : isPlain c = true) {rest : List Char}
    (hq : c = '\'' → beginsWithTwo '\'' rest = false) :
    readSingleLines (c :: rest) = push c (readSingleLines rest) := by
  rw [readSingleLines]
  · rw [if_pos hc]
  · rintro r rfl rfl
    cases hq rfl
  · rintro r rfl rfl
    exact (ne_of_isPlain hc).2 rfl
  · exact (ne_of_isPlain hc).1

theorem hasRunOfThree_tail {q c : Char} {text : List Char}
    (h : hasRunOfThree q (c :: text) = false) :
    hasRunOfThree q text = false := by
  rcases text with _ | ⟨a, _ | ⟨b, text⟩⟩
  · rfl
  · rfl
  · rw [hasRunOfThree, Bool.or_eq_false_iff] at h
    exact h.2

/-- **Single quotes over several lines** hold a text without other controls than line feeds in which
no three of them are in a row. -/
theorem readSingleLines_append {text rest : List Char} (hrest : rest.head? ≠ some '\'')
    (hplain : ∀ c ∈ text, isPlain c = true ∨ c = '\n') (hrun : hasRunOfThree '\'' text = false) :
    readSingleLines (text ++ '\'' :: '\'' :: '\'' :: rest) = some (text, rest) := by
  induction text with
  | nil =>
    rw [List.nil_append, readSingleLines]
    exact congrArg some (closing_quotes hrest (Nat.zero_le 2))
  | cons c text ih =>
    obtain ⟨hc, htext⟩ := List.forall_mem_cons.mp hplain
    have hlater := ih htext (hasRunOfThree_tail hrun)
    rw [List.cons_append]
    rcases hc with hc | rfl
    · by_cases hq : c = '\'' ∧ beginsWithTwo '\'' (text ++ '\'' :: '\'' :: '\'' :: rest) = true
      -- The text ends with one or two quotes, which stand before those that close it.
      · obtain ⟨rfl, htwo⟩ := hq
        obtain ⟨n, hn, rfl⟩ : ∃ n, n ≤ 1 ∧ text = List.replicate n '\'' := by
          rcases text with _ | ⟨a, _ | ⟨b, text⟩⟩
          · exact ⟨0, by decide, rfl⟩
          · simp only [List.cons_append, List.nil_append, beginsWithTwo, Bool.and_eq_true,
              decide_eq_true_eq] at htwo
            exact ⟨1, Nat.le_refl 1, by rw [htwo.1]; rfl⟩
          · simp only [List.cons_append, beginsWithTwo, Bool.and_eq_true, decide_eq_true_eq] at htwo
            rw [htwo.1, htwo.2] at hrun
            cases hrun
        rw [← List.cons_append, ← List.replicate_succ, replicate_append_three, readSingleLines]
        exact congrArg some (closing_quotes hrest (by omega))
      · rw [readSingleLines_plain hc fun e => Bool.eq_false_iff.mpr fun htwo =>
          hq ⟨e, htwo⟩, hlater]
        rfl
    · rw [readSingleLines_newline, hlater]
      rfl

/-! ## The style that suits a text -/

/-- What may follow a quotation, which is anything that does not begin with a quote. -/
structure NoQuote (rest : List Char) : Prop where
  double : rest.head? ≠ some '"'
  single : rest.head? ≠ some '\''

theorem readQuoted_double {cs : List Char} (h : beginsWithTwo '"' cs = false) :
    readQuoted ('"' :: cs) = readDouble cs := by
  rw [readQuoted]
  · rfl
  · rintro r ⟨⟩
    cases h
  · rintro r ⟨⟩

theorem readQuoted_single {cs : List Char} (h : beginsWithTwo '\'' cs = false) :
    readQuoted ('\'' :: cs) = readSingle cs := by
  rw [readQuoted]
  · rfl
  · rintro r ⟨⟩
  · rintro r ⟨⟩
    cases h

theorem firstLine_of_ne {c : Char} (hn : c ≠ '\n') (hr : c ≠ '\r') (rest : List Char) :
    firstLine (c :: rest) = c :: rest := by
  have hnone : lineBreak? (c :: rest) = none := by
    rw [lineBreak?]
    · rintro r ⟨⟩
      exact hn rfl
    · rintro r ⟨⟩
      exact hr rfl
  rw [firstLine, hnone, Option.getD_none]

namespace Style

/-- Whether a text may stand in a style. -/
def Holds (text : List Char) : Style → Prop
  | double => True
  | single => ∀ c ∈ text, isPlain c = true ∧ c ≠ '\''
  | doubleLines => True
  | singleLines => (∀ c ∈ text, isPlain c = true ∨ c = '\n') ∧ hasRunOfThree '\'' text = false

/-- A text may stand in the style that suits it. -/
theorem holds_of (text : List Char) : (Style.of text).Holds text := by
  have hplain (h : (!text.any fun c => isControl c && c ≠ '\n') = true) (c : Char) (hc : c ∈ text) :
      isPlain c = true ∨ c = '\n' := by
    rw [Bool.not_eq_true', List.any_eq_false] at h
    have := h c hc
    rw [Bool.not_eq_true, Bool.and_eq_false_iff] at this
    rcases this with this | this
    · exact Or.inl (isPlain_of_not_control this)
    · exact Or.inr (by simpa using this)
  unfold Style.of
  dsimp only
  split_ifs with hdouble hsingle hdoubleLines hsingleLines
  · trivial
  · rw [Bool.and_eq_true, Bool.and_eq_true] at hsingle
    obtain ⟨⟨hcontrols, hlines⟩, hquotes⟩ := hsingle
    intro c hc
    refine ⟨(hplain hcontrols c hc).resolve_right ?_, ?_⟩
    · rintro rfl
      simp [hc] at hlines
    · rintro rfl
      simp [hc] at hquotes
  · trivial
  · rw [Bool.and_eq_true, Bool.not_eq_true' (hasRunOfThree _ _)] at hsingleLines
    exact ⟨hplain hsingleLines.1, hsingleLines.2⟩
  · trivial
  · trivial

/-- The line end after the opening quotes is dropped, and without one nothing is. -/
theorem firstLine_opening {text body : List Char} (h : '\n' ∉ text → firstLine body = body) :
    firstLine ((if text.contains '\n' then ['\n'] else []) ++ body) = body := by
  split_ifs with hn
  · rfl
  · exact h (by simpa using hn)

theorem firstLine_doubleLinesBody {text : List Char} (h : '\n' ∉ text) (rest : List Char) :
    firstLine (doubleLinesBody 0 text ++ '"' :: rest) = doubleLinesBody 0 text ++ '"' :: rest := by
  rcases text with _ | ⟨c, text⟩
  · exact firstLine_of_ne (by decide) (by decide) _
  · have hn : c ≠ '\n' := fun e => h (e ▸ List.mem_cons_self)
    by_cases hq : c = '"'
    · subst hq
      rw [doubleLinesBody]
      exact firstLine_of_ne (by decide) (by decide) _
    · rw [doubleLinesBody]
      · split_ifs with hc
        · rw [escape_eq]
          exact firstLine_of_ne (by decide) (by decide) _
        · have hplain := (isPlain_of_needsEscape_eq_false (Bool.eq_false_iff.mpr hc)).1
          exact firstLine_of_ne hn (ne_of_isPlain hplain).2 _
      · exact hq
      · exact hn

theorem firstLine_singleLines {text : List Char} (hplain : ∀ c ∈ text, isPlain c = true ∨ c = '\n')
    (h : '\n' ∉ text) (rest : List Char) :
    firstLine (text ++ '\'' :: rest) = text ++ '\'' :: rest := by
  rcases text with _ | ⟨c, text⟩
  · exact firstLine_of_ne (by decide) (by decide) _
  · have hn : c ≠ '\n' := fun e => h (e ▸ List.mem_cons_self)
    have hc := (hplain c List.mem_cons_self).resolve_right hn
    exact firstLine_of_ne hn (ne_of_isPlain hc).2 _

/-- The quotation on one line of a text that is not empty does not begin with three quotes. -/
theorem beginsWithTwo_doubleBody (text : List Char) {rest : List Char} (h : rest.head? ≠ some '"') :
    beginsWithTwo '"' (doubleBody text ++ '"' :: rest) = false := by
  rcases text with _ | ⟨c, text⟩
  · rcases rest with _ | ⟨d, rest⟩
    · rfl
    · have hd : d ≠ '"' := fun e => h (congrArg some e)
      simp [doubleBody, beginsWithTwo, hd]
  · have hfirst : ∃ d more, doubleBody (c :: text) = d :: more ∧ d ≠ '"' := by
      rw [doubleBody, List.flatMap_cons]
      split_ifs with hc
      · rw [escape_eq]
        exact ⟨_, _, rfl, by decide⟩
      · rw [Bool.or_eq_true, not_or, decide_eq_true_eq] at hc
        exact ⟨_, _, rfl, hc.2⟩
    obtain ⟨d, more, hmore, hd⟩ := hfirst
    rw [hmore, List.cons_append]
    cases hl : more ++ '"' :: rest with
    | nil => rfl
    | cons e l => simp [beginsWithTwo, hd]

theorem beginsWithTwo_append {text : List Char} (htext : ∀ c ∈ text, c ≠ '\'') {rest : List Char}
    (h : rest.head? ≠ some '\'') : beginsWithTwo '\'' (text ++ '\'' :: rest) = false := by
  rcases text with _ | ⟨c, text⟩
  · rcases rest with _ | ⟨d, rest⟩
    · rfl
    · have hd : d ≠ '\'' := fun e => h (congrArg some e)
      simp [beginsWithTwo, hd]
  · have hc := htext c List.mem_cons_self
    cases hl : text ++ '\'' :: rest with
    | nil => simp at hl
    | cons e l => simp [hl, beginsWithTwo, hc]

/-- **Each style** is read back for the texts that may stand in it. -/
theorem readQuoted_write {text : List Char} {style : Style} (h : style.Holds text)
    {rest : List Char} (hrest : NoQuote rest) :
    readQuoted (style.write text ++ rest) = some (text, rest) := by
  cases style with
  | double =>
    rw [write, List.append_assoc, List.append_assoc]
    change readQuoted ('"' :: (doubleBody text ++ '"' :: rest)) = _
    rw [readQuoted_double (beginsWithTwo_doubleBody text hrest.double), readDouble_doubleBody]
  | single =>
    rw [write, List.append_assoc, List.append_assoc]
    change readQuoted ('\'' :: (text ++ '\'' :: rest)) = _
    rw [readQuoted_single (beginsWithTwo_append (fun c hc => (h c hc).2) hrest.single),
      readSingle_append h]
  | doubleLines =>
    have hbody := readDoubleLines_body text hrest.double (Nat.zero_le 2)
    rw [write, opening, List.append_assoc, List.append_assoc, List.append_assoc]
    change readDoubleLines
      (firstLine (_ ++ (doubleLinesBody 0 text ++ '"' :: '"' :: '"' :: rest))) = _
    rw [firstLine_opening fun hn => firstLine_doubleLinesBody hn _]
    exact hbody
  | singleLines =>
    have hbody := readSingleLines_append hrest.single h.1 h.2
    rw [write, opening, List.append_assoc, List.append_assoc, List.append_assoc]
    change readSingleLines (firstLine (_ ++ (text ++ '\'' :: '\'' :: '\'' :: rest))) = _
    rw [firstLine_opening fun hn => firstLine_singleLines h.1 hn _]
    exact hbody

end Style

/-- **Quoted texts are read back.** -/
theorem readQuoted_quote (text : List Char) {rest : List Char} (h : NoQuote rest) :
    readQuoted (quote text ++ rest) = some (text, rest) :=
  Style.readQuoted_write (Style.holds_of text) h

end Admission.Toml
