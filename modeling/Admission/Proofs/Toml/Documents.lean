import Admission.Proofs.Toml.Values

/-!
# Written documents are read back

A written document is a sequence of sections whose names and keys need no quotes and occur once.
Each of its lines is read as one statement, whatever stands below it, and the statements build up
the table of the sections: while a section is read it is the last entry of the table, and the path
of the present table leads to it.

## Main definitions

* `Section.IsBare`, `AreDistinct`: what the names and keys of a document have to be
* `Section.statements`: the statements that a section is read as
* `tableOf`: the table of a document

## Main results

* `readStatement_header`, `readStatement_setting`: the lines of a section
* `readStatements_write`: the statements of a document
* `ofStatements?_statements`: the table that they build up
* `parse_write`: written documents are read back
-/

namespace Admission.Toml

/-! ## Names and keys -/

/-- Whether a key needs no quotes. -/
def isBare (key : String) : Bool := !key.toList.isEmpty && key.toList.all isKeyChar

theorem exists_cons_of_isBare {key : String} (h : isBare key = true) :
    ∃ c cs, key.toList = c :: cs ∧ isKeyChar c = true ∧ ∀ d ∈ cs, isKeyChar d = true := by
  rw [isBare, Bool.and_eq_true, Bool.not_eq_true', List.all_eq_true] at h
  cases hkey : key.toList with
  | nil => simp [hkey] at h
  | cons c cs =>
    rw [hkey] at h
    exact ⟨c, cs, rfl, h.2 c List.mem_cons_self, fun d hd => h.2 d (List.mem_cons_of_mem c hd)⟩

/-- A character of a key is none of the marks of a document. -/
theorem ne_of_isKeyChar {c d : Char} (h : isKeyChar c = true)
    (hd : isKeyChar d = false) : c ≠ d := by
  rintro rfl
  rw [h] at hd
  cases hd

theorem isBlank_of_isKeyChar {c : Char} (h : isKeyChar c = true) : isBlank c = false := by
  simp [isBlank, ne_of_isKeyChar h (show isKeyChar ' ' = false by decide),
    ne_of_isKeyChar h (show isKeyChar '\t' = false by decide)]

theorem skipBlanks_cons {c : Char} (h : isBlank c = false) (rest : List Char) :
    skipBlanks (c :: rest) = c :: rest :=
  List.dropWhile_cons_of_neg (by simp [h])

theorem readKey_bare {key : String} (h : isBare key = true) {c : Char} (hc : isKeyChar c = false)
    (rest : List Char) : readKey (key.toList ++ c :: rest) = some (key, c :: rest) := by
  obtain ⟨d, cs, hkey, hd, hcs⟩ := exists_cons_of_isBare h
  have hall : ∀ e ∈ key.toList, isKeyChar e = true := by
    rw [hkey]
    exact List.forall_mem_cons.mpr ⟨hd, hcs⟩
  have hquote : readKeyText (key.toList ++ c :: rest) = none := by
    rw [hkey, List.cons_append]
    unfold readKeyText
    split
    · rename_i heq
      cases heq
      exact absurd hd (by decide)
    · rename_i heq
      cases heq
      exact absurd hd (by decide)
    · rfl
  rw [readKey, hquote]
  simp only [List.takeWhile_append_of_pos hall, List.dropWhile_append_of_pos hall,
    List.takeWhile_cons_of_neg (show ¬isKeyChar c = true by simp [hc]),
    List.dropWhile_cons_of_neg (show ¬isKeyChar c = true by simp [hc]), List.append_nil]
  split
  · rename_i heq
    rw [hkey] at heq
    cases heq
  · rw [String.ofList_toList]

/-- A bare key without a dot after it is read with an empty path. -/
theorem readKeys_bare {key : String} (h : isBare key = true) {c : Char} (hc : isKeyChar c = false)
    {rest : List Char} (hdot : ∀ after, skipBlanks (c :: rest) ≠ '.' :: after) :
    readKeys (key.toList ++ c :: rest) = some (([], key), skipBlanks (c :: rest)) := by
  change readParts (79 + 1) _ = _
  rw [readParts, readKey_bare h hc]
  -- The path goes on only after a dot, which `hdot` excludes.
  simp only

/-! ## Lines -/

theorem readStatement_header {name : String} (h : isBare name = true) (rest : List Char) :
    readStatement ('[' :: (name.toList ++ ']' :: rest)) = some (.header [] name, rest) := by
  have hkeys : readKeys (name.toList ++ ']' :: rest) = some (([], name), ']' :: rest) := by
    rw [readKeys_bare h (by decide) fun _ => ?_]
    · rw [skipBlanks_cons (by decide)]
    · rw [skipBlanks_cons (by decide)]
      rintro ⟨⟩
  obtain ⟨c, cs, hname, hc, -⟩ := exists_cons_of_isBare h
  have hheader : readHeader (name.toList ++ ']' :: rest) = some (([], name), ']' :: rest) := by
    rw [readHeader, ← hkeys, hname, List.cons_append, skipBlanks_cons (isBlank_of_isKeyChar hc)]
  rw [readStatement]
  · simp only [hheader]
  · intro after heq
    rw [hname] at heq
    cases heq
    exact absurd hc (by decide)

/-- A written value begins with no blank and with no bracket. -/
theorem exists_write_eq_cons (v : Setting) :
    ∃ c cs, v.write = c :: cs ∧ isBlank c = false ∧ c ≠ '[' ∧ c ≠ '\x7b' := by
  cases v with
  | number n =>
    cases hdigits : Nat.toDigits 10 n with
    | nil => exact absurd hdigits Nat.toDigits_ne_nil
    | cons c cs =>
      have hne {d : Char} (hd : d.isDigit = false) : c ≠ d := by
        rintro rfl
        exact not_mem_toDigits hd n (hdigits ▸ List.mem_cons_self)
      exact ⟨c, cs, hdigits, by simp [isBlank, hne], hne rfl, hne rfl⟩
  | truth b =>
    cases b with
    | false => exact ⟨'f', _, rfl, by decide⟩
    | true => exact ⟨'t', _, rfl, by decide⟩
  | text s =>
    obtain ⟨q, cs, hquote, rfl | rfl⟩ := exists_quote_eq_cons s.toList
    · exact ⟨'"', cs, hquote, by decide⟩
    · exact ⟨'\'', cs, hquote, by decide⟩

theorem readValue_write (v : Setting) (rest : List Char) :
    readValue maxDepth (v.write ++ '\n' :: rest) = some (.scalar v.toScalar, '\n' :: rest) := by
  have hscalar := readScalar_write v rest
  obtain ⟨c, cs, hv, -, hbracket, hbrace⟩ := exists_write_eq_cons v
  change readValue (79 + 1) _ = _
  rw [hv, List.cons_append] at hscalar ⊢
  rw [readValue, hscalar]
  · rfl
  · rintro _ ⟨⟩
    exact hbracket rfl
  · rintro _ ⟨⟩
    exact hbrace rfl

/-- The line of a setting, without the line end. -/
def settingLine (key : String) (v : Setting) : List Char := key.toList ++ [' ', '=', ' '] ++ v.write

theorem readStatement_setting {key : String} (h : isBare key = true) (v : Setting)
    (rest : List Char) :
    readStatement (settingLine key v ++ '\n' :: rest) =
      some (.assign [] key (.scalar v.toScalar), '\n' :: rest) := by
  have hkeys : readKeys (key.toList ++ ' ' :: '=' :: ' ' :: (v.write ++ '\n' :: rest)) =
      some (([], key), '=' :: ' ' :: (v.write ++ '\n' :: rest)) := by
    refine readKeys_bare h (by decide) fun after heq => ?_
    cases heq
  have hvalue : skipBlanks (' ' :: (v.write ++ '\n' :: rest)) = v.write ++ '\n' :: rest := by
    obtain ⟨c, cs, hv, hblank, -, -⟩ := exists_write_eq_cons v
    rw [hv, List.cons_append]
    exact skipBlanks_cons hblank _
  have hline : settingLine key v ++ '\n' :: rest =
      key.toList ++ ' ' :: '=' :: ' ' :: (v.write ++ '\n' :: rest) := by
    simp [settingLine]
  have hequals : skipBlanks ('=' :: ' ' :: (v.write ++ '\n' :: rest)) =
      '=' :: ' ' :: (v.write ++ '\n' :: rest) := skipBlanks_cons (by decide) _
  have hassign :
      readAssignment skipBlanks (readValue maxDepth) (settingLine key v ++ '\n' :: rest) =
        some (([], key, .scalar v.toScalar), '\n' :: rest) := by
    rw [hline, readAssignment, hkeys]
    simp only [hequals, hvalue, readValue_write]
  obtain ⟨c, cs, hkey, hc, -⟩ := exists_cons_of_isBare h
  have hfirst : ∃ cs, settingLine key v ++ '\n' :: rest = c :: cs := by
    rw [hline, hkey]
    exact ⟨_, rfl⟩
  obtain ⟨cs', hfirst⟩ := hfirst
  rw [hfirst] at hassign ⊢
  rw [readStatement, hassign]
  · rfl
  · rintro _ ⟨⟩
    exact absurd hc (by decide)
  · rintro _ ⟨⟩
    exact absurd hc (by decide)

/-! ## Statements -/

theorem length_skipSpace_le (inComment : Bool) (cs : List Char) :
    (skipSpace inComment cs).length ≤ cs.length := by
  fun_induction skipSpace inComment cs <;> simp_all <;> omega

/-- A line is one statement, and what stands above it may be passed over. -/
theorem readStatements_line {cs line rest : List Char} {s : Statement} (hline : line ≠ [])
    (hskip : skipSpace false cs = line ++ '\n' :: rest)
    (hread : readStatement (line ++ '\n' :: rest) = some (s, '\n' :: rest)) :
    readStatements cs = (readStatements rest).map (s :: ·) := by
  have hlength : rest.length < cs.length := by
    have hle := length_skipSpace_le false cs
    rw [hskip, List.length_append, List.length_cons] at hle
    omega
  have hend : lineEnd? ('\n' :: rest) = some rest := by
    rw [lineEnd?, skipBlanks_cons (by decide)]
    rfl
  rw [readStatements, hskip]
  cases line with
  | nil => exact absurd rfl hline
  | cons c line =>
    rw [List.cons_append] at hread ⊢
    simp only [hread, hend, if_pos hlength]

theorem skipSpace_keyChar {c : Char} (hc : isKeyChar c = true ∨ c = '[') (rest : List Char) :
    skipSpace false (c :: rest) = c :: rest := by
  have hne {d : Char} (hd : isKeyChar d = false) (hb : d ≠ '[') : c ≠ d := by
    rcases hc with hc | rfl
    · exact ne_of_isKeyChar hc hd
    · exact hb.symm
  rw [skipSpace]
  · have hblank : isBlank c = false := by
      simp [isBlank, hne (show isKeyChar ' ' = false by decide),
        hne (show isKeyChar '\t' = false by decide)]
    simp [hblank, hne (show isKeyChar '#' = false by decide)]
  · exact hne (by decide) (by decide)
  · exact fun _ h => absurd h (hne (by decide) (by decide))

/-- What the names and keys of a section have to be. -/
structure Section.IsBare (s : Section) : Prop where
  name : isBare s.name = true
  keys : ∀ e ∈ s.settings, isBare e.1 = true

/-- The statement that sets a value. -/
def assignment (e : String × Setting) : Statement := .assign [] e.1 (.scalar e.2.toScalar)

/-- The statements that a section is read as. -/
def Section.statements (s : Section) : List Statement :=
  .header [] s.name :: s.settings.map assignment

theorem readStatements_settings {settings : List (String × Setting)}
    (h : ∀ e ∈ settings, isBare e.1 = true) (rest : List Char) :
    readStatements (Section.writeSettings settings ++ rest) =
      (readStatements rest).map (settings.map assignment ++ ·) := by
  induction settings with
  | nil =>
    rw [Section.writeSettings, List.flatMap_nil, List.nil_append]
    simp
  | cons e settings ih =>
    have hbare := h e List.mem_cons_self
    have hline : Section.writeSettings (e :: settings) ++ rest =
        settingLine e.1 e.2 ++ '\n' :: (Section.writeSettings settings ++ rest) := by
      simp [Section.writeSettings, settingLine]
    obtain ⟨c, cs, hkey, hc, -⟩ := exists_cons_of_isBare hbare
    have hfirst : settingLine e.1 e.2 = c :: (cs ++ [' ', '=', ' '] ++ e.2.write) := by
      rw [settingLine, hkey]
      rfl
    have hskip (rest : List Char) : skipSpace false (settingLine e.1 e.2 ++ rest) =
        settingLine e.1 e.2 ++ rest := by
      rw [hfirst]
      exact skipSpace_keyChar (.inl hc) _
    rw [hline, readStatements_line (by simp [hfirst]) (hskip _) (readStatement_setting hbare e.2 _),
      ih fun d hd => h d (List.mem_cons_of_mem e hd), Option.map_map]
    rfl

theorem write_eq (s : Section) (rest : List Char) :
    s.write ++ rest =
      ('[' :: (s.name.toList ++ [']'])) ++ '\n' :: (Section.writeSettings s.settings ++ rest) := by
  simp [Section.write]

/-- A section is read as its statements, and what stands above it may be passed over. -/
theorem readStatements_section {s : Section} (h : s.IsBare) {cs rest : List Char}
    (hskip : skipSpace false cs = s.write ++ rest) :
    readStatements cs = (readStatements rest).map (s.statements ++ ·) := by
  rw [write_eq] at hskip
  have hread := readStatement_header h.name ('\n' :: (Section.writeSettings s.settings ++ rest))
  rw [readStatements_line (List.cons_ne_nil _ _) hskip (by simpa using hread),
    readStatements_settings h.keys, Option.map_map]
  rfl

theorem skipSpace_write (s : Section) (rest : List Char) :
    skipSpace false (s.write ++ rest) = s.write ++ rest := by
  rw [write_eq]
  exact skipSpace_keyChar (.inr rfl) _

/-- The empty line above a section changes nothing. -/
theorem readStatements_emptyLine {s : Section} (h : s.IsBare) (rest : List Char) :
    readStatements ('\n' :: (s.write ++ rest)) = readStatements (s.write ++ rest) := by
  have hskip : skipSpace false ('\n' :: (s.write ++ rest)) = s.write ++ rest := by
    rw [skipSpace, skipSpace_write]
  rw [readStatements_section h hskip, readStatements_section h (skipSpace_write s rest)]

theorem readStatements_nil : readStatements [] = some [] := by
  rw [readStatements, skipSpace]

/-- **The statements of a document** are those of its sections. -/
theorem readStatements_write {sections : List Section} (h : ∀ s ∈ sections, s.IsBare) :
    readStatements (['\n'].intercalate (sections.map Section.write)) =
      some (sections.flatMap Section.statements) := by
  induction sections with
  | nil => exact readStatements_nil
  | cons s sections ih =>
    have hs := h s List.mem_cons_self
    have hrest := ih fun t ht => h t (List.mem_cons_of_mem s ht)
    cases sections with
    | nil =>
      have hread := readStatements_section hs (skipSpace_write s [])
      rw [readStatements_nil, List.append_nil] at hread
      simp [hread]
    | cons t sections =>
      obtain ⟨rest, hlater⟩ :
          ∃ rest, ['\n'].intercalate ((t :: sections).map Section.write) = t.write ++ rest := by
        cases sections with
        | nil => exact ⟨[], by simp⟩
        | cons u sections =>
          rw [List.map_cons, List.map_cons, List.intercalate_cons_cons, List.append_assoc]
          exact ⟨_, rfl⟩
      have hdocument : ['\n'].intercalate ((s :: t :: sections).map Section.write) =
          s.write ++ '\n' :: (t.write ++ rest) := by
        rw [← hlater, List.map_cons, List.map_cons, List.intercalate_cons_cons, List.append_assoc]
        rfl
      rw [hdocument, readStatements_section hs (skipSpace_write s _),
        readStatements_emptyLine (h t (by simp)), ← hlater, hrest]
      rfl

/-! ## Tables -/

namespace Table

theorem get?_eq_none {t : Table} {key : String} (h : key ∉ t.map Prod.fst) : t.get? key = none := by
  rw [get?, List.lookup_eq_none_iff]
  intro e he
  rw [bne_iff_ne]
  rintro rfl
  exact h (List.mem_map_of_mem he)

theorem get?_append {t : Table} {key : String} (h : key ∉ t.map Prod.fst) (v : Value) :
    get? (t ++ [(key, v)]) key = some v := by
  rw [get?, List.lookup_append, show t.lookup key = none from get?_eq_none h]
  simp

/-- With distinct keys every entry is found. -/
theorem get?_of_mem {t : Table} (hnodup : (t.map Prod.fst).Nodup) {key : String} {v : Value}
    (h : (key, v) ∈ t) : t.get? key = some v := by
  obtain ⟨before, after, rfl⟩ := List.append_of_mem h
  rw [List.map_append, List.nodup_append] at hnodup
  rw [get?, List.lookup_eq_some_iff]
  refine ⟨before, after, rfl, fun e he => ?_⟩
  rw [bne_iff_ne]
  exact (hnodup.2.2 e.1 (List.mem_map_of_mem he) key (by simp)).symm

theorem replace_append {t : Table} {key : String} (h : key ∉ t.map Prod.fst) (v v' : Value) :
    replace (t ++ [(key, v)]) key v' = t ++ [(key, v')] := by
  have hkeep : ∀ e ∈ t, (if e.1 = key then (key, v') else e) = e := by
    intro e he
    rw [if_neg]
    rintro rfl
    exact h (List.mem_map_of_mem he)
  rw [replace, List.map_append, List.map_congr_left hkeep, List.map_id']
  simp

end Table

/-- The entries of a section. -/
def entriesOf (settings : List (String × Setting)) : Table :=
  settings.map fun e => (e.1, .scalar e.2.toScalar)

/-- The table of a document. -/
def tableOf (sections : List Section) : Table :=
  sections.map fun s => (s.name, .table .header (entriesOf s.settings))

theorem keys_entriesOf (settings : List (String × Setting)) :
    (entriesOf settings).map Prod.fst = settings.map Prod.fst := by
  rw [entriesOf, List.map_map]
  rfl

theorem keys_tableOf (sections : List Section) :
    (tableOf sections).map Prod.fst = sections.map Section.name := by
  rw [tableOf, List.map_map]
  rfl

/-- A draft in the middle of a section, which is the last entry of its table. -/
def draft (above : Table) (name : String) (entries : Table) : Draft where
  root := above ++ [(name, .table .header entries)]
  here := [name]

theorem add?_header {d : Draft} {name : String} (h : name ∉ d.root.map Prod.fst) :
    d.add? (.header [] name) = some (draft d.root name []) := by
  simp [Draft.add?, Table.define?, Table.change, Table.get?_eq_none h, draft]

theorem add?_assignment {above entries : Table} {name : String} (hname : name ∉ above.map Prod.fst)
    {e : String × Setting} (hkey : e.1 ∉ entries.map Prod.fst) :
    (draft above name entries).add? (assignment e) =
      some (draft above name (entries ++ entriesOf [e])) := by
  simp [Draft.add?, assignment, draft, Table.change, Table.get?_append hname, Way.mayEnter,
    Table.assign?, Table.insert?, Table.get?_eq_none hkey, Table.replace_append hname, entriesOf]

theorem add?_settings {above : Table} {name : String} (hname : name ∉ above.map Prod.fst)
    (before : List (String × Setting)) {after : List (String × Setting)}
    (h : ((before ++ after).map Prod.fst).Nodup) :
    (after.map assignment).foldlM Draft.add? (draft above name (entriesOf before)) =
      some (draft above name (entriesOf (before ++ after))) := by
  induction after generalizing before with
  | nil => rw [List.append_nil]; rfl
  | cons e after ih =>
    have hkey : e.1 ∉ (entriesOf before).map Prod.fst := by
      rw [keys_entriesOf]
      rw [List.map_append, List.nodup_append] at h
      exact fun he => h.2.2 _ he _ (by simp) rfl
    have hmore : entriesOf before ++ entriesOf [e] = entriesOf (before ++ [e]) := by
      rw [entriesOf, entriesOf, entriesOf, List.map_append]
    rw [List.map_cons, List.foldlM_cons, add?_assignment hname hkey, hmore]
    have hrest := ih (before ++ [e]) (by rwa [List.append_assoc])
    rwa [List.append_assoc] at hrest

/-- What a document has to be so that no name and no key stands for two things. -/
structure AreDistinct (sections : List Section) : Prop where
  names : (sections.map Section.name).Nodup
  keys : ∀ s ∈ sections, (s.settings.map Prod.fst).Nodup

/-- A section becomes the last entry of the table. -/
theorem add?_section {d : Draft} {s : Section} (hname : s.name ∉ d.root.map Prod.fst)
    (hkeys : (s.settings.map Prod.fst).Nodup) :
    s.statements.foldlM Draft.add? d = some (draft d.root s.name (entriesOf s.settings)) := by
  rw [Section.statements, List.foldlM_cons, add?_header hname]
  exact add?_settings hname [] hkeys

theorem add?_sections {d : Draft} (before : List Section) {after : List Section}
    (hroot : d.root = tableOf before) (h : AreDistinct (before ++ after)) :
    ((after.flatMap Section.statements).foldlM Draft.add? d).map Draft.root =
      some (tableOf (before ++ after)) := by
  induction after generalizing d before with
  | nil => simpa using hroot
  | cons s after ih =>
    have hname : s.name ∉ d.root.map Prod.fst := by
      have hnames := h.names
      rw [List.map_append, List.nodup_append] at hnames
      rw [hroot, keys_tableOf]
      exact fun hs => hnames.2.2 _ hs _ (by simp) rfl
    have hmore : (draft d.root s.name (entriesOf s.settings)).root = tableOf (before ++ [s]) := by
      rw [draft, hroot, tableOf, tableOf, List.map_append]
      rfl
    rw [List.flatMap_cons, List.foldlM_append, add?_section hname (h.keys s (by simp))]
    have hrest := ih (before ++ [s]) hmore (by rwa [List.append_assoc])
    rwa [List.append_assoc] at hrest

/-- **The table of a document** has an entry for each section, in order. -/
theorem ofStatements?_statements {sections : List Section} (h : AreDistinct sections) :
    Table.ofStatements? (sections.flatMap Section.statements) = some (tableOf sections) :=
  add?_sections [] rfl h

theorem skipMark_write (sections : List Section) :
    skipMark (['\n'].intercalate (sections.map Section.write)) =
      ['\n'].intercalate (sections.map Section.write) := by
  cases sections with
  | nil => rfl
  | cons s sections => cases sections <;> rfl

/-- **A written document is read back** as the table of its sections. -/
theorem parse_write {sections : List Section} (hbare : ∀ s ∈ sections, s.IsBare)
    (hdistinct : AreDistinct sections) : parse (write sections) = some (tableOf sections) := by
  rw [parse, write, String.toList_ofList, skipMark_write, readStatements_write hbare]
  exact ofStatements?_statements hdistinct

end Admission.Toml
