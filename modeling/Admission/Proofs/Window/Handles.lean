import Admission.Proofs.Window.Reentrant
import Admission.Proofs.Window.Walks

/-!
# Cells that are kept

A cell that a look has returned can be kept and written to at any time, also when its position has
long moved on. It belongs to the slot for which it was found and to no other: a position moves on by
storing a cell that is new, so what is written to a kept cell shows in its own slot or nowhere. To
write to a kept cell is therefore the same as to add at the time for which it was found.

## Main definitions

* `Window.Finds`: an interval that a step of some walk finds
* `CellWindow.Evolves`: how a window goes on
* `Handle`, `Client`, `Use`: kept cells, and what a client does with a window and the cells it keeps
* `Client.called`: the calls that were done for a client, those of the making of cells included
* `CellWindow.Detached`: a look whose cell is not stored

## Main results

* `Window.place_after_eq_passed_iff`: when a position has moved on
* `Runs.evolves`: positions only move on to later slots, and with new cells
* `Found.evolves`: what was found for a slot stays with it
* `Client.Tracks.useAll`: a window shows all calls and all writes, each in its own slot
* `Client.Tracks.look_again`, `Client.Tracks.slot_eq`, `Client.Tracks.value_ne_of_detached`: which
  cells a client gets, and where they are shown
* `handles_stay`: kept cells never cross slots
-/

namespace Admission

namespace Window

variable {α : Type} {w : Window α} {i : Interval α}

/-- An interval that a step of some walk finds. -/
def Finds (w : Window α) (i : Interval α) : Prop := ∃ walk : Cursor, (walk.next w).1 = some i

theorem finds_iff : w.Finds i ↔ w.interval? i.slot = some i := by
  constructor
  · rintro ⟨walk, hi⟩
    exact (Cursor.next_spec walk.remaining w).2.1 i hi
  · intro hi
    exact ⟨⟨[i.slot]⟩, by rw [Cursor.next_of_some hi]⟩

theorem Finds.bucketAt (h : w.Finds i) : w.bucketAt i.slot = some ⟨i.slot, i.value⟩ :=
  (interval?_eq_some_iff.mp (finds_iff.mp h)).1

theorem place_eq_passed_iff {slot : UInt64} :
    w.place slot = .passed ↔ ∃ b, w.bucketAt slot = some b ∧ slot < b.slot := by
  unfold place
  cases w.bucketAt slot with
  | none => simp
  | some b =>
    dsimp only
    split_ifs with heq hlt
    · simp [heq]
    · simp [hlt]
    · simp [hlt]

/-- A position has moved on beyond a slot if a later slot that needs it was written. -/
theorem place_after_eq_passed_iff {shape : Shape} {fresh : α} {writes : List (Write α)}
    {slot : UInt64} :
    (after shape fresh writes).place slot = .passed ↔
      ∃ x ∈ writes, shape.Overtakes (shape.slotOf x.now) slot := by
  have hholds := holds_after shape fresh writes slot
  rw [place_eq_passed_iff]
  cases hat : (after shape fresh writes).bucketAt slot with
  | none =>
    rw [hat] at hholds
    simp only [reduceCtorEq, false_and, exists_false, false_iff, not_exists, not_and]
    rintro x hx ⟨-, hmod⟩
    exact hholds x hx (Shape.position_eq_iff.mpr hmod)
  | some b =>
    rw [hat] at hholds
    obtain ⟨hposition, ⟨x, hx, hslot⟩, hlatest, -⟩ := hholds
    simp only [Option.some.injEq, exists_eq_left']
    constructor
    · intro hlt
      refine ⟨x, hx, ?_⟩
      rw [hslot]
      exact ⟨hlt, Shape.position_eq_iff.mp hposition⟩
    · rintro ⟨y, hy, hlt, hmod⟩
      exact UInt64.lt_of_lt_of_le hlt (hlatest y hy (Shape.position_eq_iff.mpr hmod))

end Window

namespace CellWindow

variable {s t u : CellWindow} {task : Task} {found : Option Nat} {history : List Call}
    {now slot : UInt64}
  {cell : Nat}

/-! ## How a window goes on -/

/-- How a window goes on: each position keeps its bucket, or moves on to a later slot with a cell
that was not there before. -/
structure Evolves (s t : CellWindow) : Prop where
  shape : t.window.shape = s.window.shape
  size_le : s.cells.size ≤ t.cells.size
  ring {i : Nat} (hi : i < t.window.shape.capacity) (hi' : i < s.window.shape.capacity) :
    t.window.ring[i] = s.window.ring[i] ∨
      ∃ b', t.window.ring[i] = some b' ∧ s.cells.size ≤ b'.value ∧
        ∀ b, s.window.ring[i] = some b → b.slot < b'.slot

namespace Evolves

theorem of_window (hwindow : t.window = s.window) (hsize : s.cells.size ≤ t.cells.size) :
    s.Evolves t := by
  obtain ⟨window, nested, cells⟩ := t
  subst hwindow
  exact ⟨rfl, hsize, fun _ _ => Or.inl rfl⟩

theorem refl (s : CellWindow) : s.Evolves s := of_window rfl (Nat.le_refl _)

theorem trans (h : s.Evolves t) (h' : t.Evolves u) : s.Evolves u where
  shape := h'.shape.trans h.shape
  size_le := h.size_le.trans h'.size_le
  ring {i} hi hi' := by
    have him : i < t.window.shape.capacity := h.shape ▸ hi'
    rcases h'.ring hi him with hsame' | ⟨b', hb', hnew', hlater'⟩
    · rw [hsame']
      exact h.ring him hi'
    · refine Or.inr ⟨b', hb', h.size_le.trans hnew', fun b hb => ?_⟩
      rcases h.ring him hi' with hsame | ⟨c, hc, -, hlater⟩
      · exact hlater' b (hsame.trans hb)
      · exact UInt64.lt_trans (hlater b hb) (hlater' c hc)

/-- The same, for the position of a slot. -/
theorem bucketAt (h : s.Evolves t) (slot : UInt64) :
    t.window.bucketAt slot = s.window.bucketAt slot ∨
      ∃ b', t.window.bucketAt slot = some b' ∧ s.cells.size ≤ b'.value ∧
        ∀ b, s.window.bucketAt slot = some b → b.slot < b'.slot := by
  have hi := (t.window.shape.position slot).isLt
  have hsame : (t.window.shape.position slot).val =
      (s.window.shape.position slot).val := by rw [h.shape]
  have hi' : (t.window.shape.position slot).val < s.window.shape.capacity := h.shape ▸ hi
  have hat : s.window.ring[(t.window.shape.position slot).val] = s.window.bucketAt slot := by
    simp only [Window.bucketAt, hsame]
  rw [← hat]
  exact h.ring hi hi'

/-- A cell that was there is stored where it was stored before, if at all. -/
theorem ring_eq_of_lt (h : s.Evolves t) {i : Nat} (hi : i < t.window.shape.capacity)
    (hi' : i < s.window.shape.capacity) {b : Bucket Nat} (hb : t.window.ring[i] = some b)
    (hlt : b.value < s.cells.size) : s.window.ring[i] = some b := by
  rcases h.ring hi hi' with hsame | ⟨b', hb', hnew, -⟩
  · exact hsame.symm.trans hb
  · rw [hb] at hb'
    rw [← Option.some.inj hb'] at hnew
    exact absurd hnew (Nat.not_le.mpr hlt)

/-- A cell that is there and in no bucket stays so. -/
theorem hidden (h : s.Evolves t) (hlt : cell < s.cells.size) (hhidden : s.Hidden cell) :
    t.Hidden cell :=
  fun i hi b hb hcell =>
    have hi' : i < s.window.shape.capacity := h.shape ▸ hi
    hhidden i hi' b (h.ring_eq_of_lt hi hi' hb (hcell ▸ hlt)) hcell

end Evolves

/-- A new cell was not there before. -/
theorem Runs.size_le (h : Runs task s t found history) : s.cells.size ≤ t.cells.size := by
  induction h with
  | plain h => simp [fresh]
  | @nesting s t additions rest found history h hcalls ih =>
    refine Nat.le_trans ih ?_
    simp [fresh]
  | held | passed | nil => exact Nat.le_refl _
  | install _ _ _ ih | stored _ ih | current _ ih => exact ih
  | retry _ _ _ _ ih ih' | detached _ _ ih ih' | cons _ _ ih ih' => exact Nat.le_trans ih ih'
  | add _ ih => simpa [bump] using ih

theorem Runs.le_made (h : Runs .make s t (some cell) history) : s.cells.size ≤ cell := by
  cases h with
  | plain h => exact Nat.le_refl _
  | nesting h hcalls => exact hcalls.size_le

/-- **Positions only move on**, to later slots and with new cells. -/
theorem Runs.evolves (h : Runs task s t found history) : s.Evolves t := by
  induction h with
  | plain h => exact .of_window rfl (by simp [fresh])
  | @nesting s t additions rest found history h hcalls ih =>
    have hfirst : s.Evolves { s with nested := rest } := .of_window rfl (Nat.le_refl _)
    exact (hfirst.trans ih).trans (.of_window rfl (by simp [fresh]))
  | held | passed | nil => exact .refl _
  | @install s now made cell history hvacant hmake hsame ih =>
    refine ⟨ih.shape, ih.size_le, fun {i} hi hi' => ?_⟩
    have him : i < made.window.shape.capacity := hi
    have hset : (made.window.put (s.window.shape.slotOf now) cell).ring[i] =
        if (made.window.shape.position (s.window.shape.slotOf now)).val = i
        then some ⟨s.window.shape.slotOf now, cell⟩ else made.window.ring[i] :=
      Vector.getElem_set (made.window.shape.position _).isLt him
    change (made.window.put (s.window.shape.slotOf now) cell).ring[i] = s.window.ring[i] ∨
      ∃ b', (made.window.put (s.window.shape.slotOf now) cell).ring[i] = some b' ∧ _
    rw [hset]
    split_ifs with hposition
    · -- The position was vacant, so what it held was for an earlier slot.
      refine Or.inr ⟨_, rfl, hmake.le_made, fun b hb => ?_⟩
      have hhere : (s.window.shape.position (s.window.shape.slotOf now)).val = i := by
        rw [← hposition, ih.shape]
      have hat : s.window.bucketAt (s.window.shape.slotOf now) = some b := by
        rw [← hb]
        simp only [Window.bucketAt, hhere]
      unfold Window.place at hvacant
      rw [hat] at hvacant
      dsimp only at hvacant
      split_ifs at hvacant with heq hlt
      exact UInt64.lt_of_le_of_ne (UInt64.not_lt.mp hlt) heq
    · exact ih.ring him hi'
  | stored _ ih | current _ ih => exact ih
  | retry _ _ _ _ ih ih' | detached _ _ ih ih' | cons _ _ ih ih' => exact ih.trans ih'
  | add _ ih => exact ih.trans (.of_window rfl (by simp [bump]))

/-! ## Cells that were found -/

theorem Found.lt_size (h : s.Found now cell) (hs : s.Sound) : cell < s.cells.size := by
  rcases h with hstored | ⟨-, hlt, -⟩
  · exact hs.lt_size (s.window.shape.position _).isLt hstored
  · exact hlt

/-- A cell that was found is shown in no slot but its own. -/
theorem Found.slot_eq (h : s.Found now cell) (hs : s.Sound) {b : Bucket Nat}
    (hb : s.window.bucketAt slot = some b) (hcell : b.value = cell) :
    b.slot = s.window.shape.slotOf now := by
  have hi := (s.window.shape.position slot).isLt
  rcases h with hstored | ⟨-, -, hhidden⟩
  · -- No cell is stored twice.
    have hposition : (s.window.shape.position slot).val =
        s.window.shape.position (s.window.shape.slotOf now) :=
      hs.eq_of_value hi (s.window.shape.position _).isLt hb hstored hcell
    have hsame : s.window.bucketAt slot = s.window.bucketAt (s.window.shape.slotOf now) := by
      simp only [Window.bucketAt, hposition]
    rw [hsame, hstored] at hb
    cases hb
    rfl
  · exact absurd hcell (hhidden _ hi b hb)

/-- **What was found for a slot stays with it**, or is hidden when the position of the slot has
moved on. -/
theorem Found.evolves (h : s.Found now cell) (hs : s.Sound) (hst : s.Evolves t) :
    t.Found now cell := by
  have hlt := h.lt_size hs
  unfold Found
  rw [hst.shape]
  rcases h with hstored | ⟨hpassed, -, hhidden⟩
  · rcases hst.bucketAt (s.window.shape.slotOf now) with hsame | ⟨b', hb', -, hlater⟩
    · exact Or.inl (hsame.trans hstored)
    · refine Or.inr ⟨Window.place_eq_passed_iff.mpr ⟨b', hb', hlater _ hstored⟩,
        Nat.lt_of_lt_of_le hlt hst.size_le, fun i hi b hb hcell => ?_⟩
      have hi' : i < s.window.shape.capacity := hst.shape ▸ hi
      have hi₀ := (s.window.shape.position (s.window.shape.slotOf now)).isLt
      -- The cell was stored at the position of its slot only, and this position has moved on.
      have hkept := hst.ring_eq_of_lt hi hi' hb (hcell ▸ hlt)
      have hposition := hs.eq_of_value hi' hi₀ hkept hstored hcell
      have hsame : (t.window.shape.position (s.window.shape.slotOf now)).val =
          s.window.shape.position (s.window.shape.slotOf now) := by rw [hst.shape]
      have hnext : t.window.ring[i] = some b' := by
        rw [← hb']
        simp only [Window.bucketAt, hsame, hposition]
      have hbefore : s.window.ring[i] = some ⟨s.window.shape.slotOf now, cell⟩ := by
        rw [← hstored]
        simp only [Window.bucketAt, hposition]
      have hmoved := Option.some.inj (hb.symm.trans hnext)
      have hless := hlater _ hstored
      rw [← hmoved, Option.some.inj (hkept.symm.trans hbefore)] at hless
      exact UInt64.lt_irrefl _ hless
  · obtain ⟨b, hb, hslot⟩ := Window.place_eq_passed_iff.mp hpassed
    have hstill : ∃ b', t.window.bucketAt (s.window.shape.slotOf now) = some b' ∧
        s.window.shape.slotOf now < b'.slot := by
      rcases hst.bucketAt (s.window.shape.slotOf now) with hsame | ⟨b', hb', -, hlater⟩
      · exact ⟨b, hsame.trans hb, hslot⟩
      · exact ⟨b', hb', UInt64.lt_trans hslot (hlater b hb)⟩
    exact Or.inr ⟨Window.place_eq_passed_iff.mpr hstill, Nat.lt_of_lt_of_le hlt hst.size_le,
      hst.hidden hlt hhidden⟩

/-- What a look returns for a slot whose position has moved on was not there before. -/
theorem Runs.size_le_of_passed (h : Runs (.find now) s t (some cell) history) (hs : s.Sound)
    (hpassed : t.window.place (t.window.shape.slotOf now) = .passed) : s.cells.size ≤ cell := by
  cases h with
  | stored hlocate =>
    obtain ⟨-, -, hstored⟩ := hlocate.refines hs
    rw [Window.place_eq_held_iff.mpr hstored] at hpassed
    cases hpassed
  | detached hlocate hmake => exact hlocate.size_le.trans hmake.le_made

/-- A look returns the cell that is stored for its slot, or a new one if the position has moved
on. -/
theorem Sound.stored_or_new (hs : s.Sound) (now : UInt64) :
    (s.current now).1.window.bucketAt (s.window.shape.slotOf now) =
        some ⟨s.window.shape.slotOf now, (s.current now).2⟩ ∨
      (s.current now).1.window.place (s.window.shape.slotOf now) = .passed ∧
        s.cells.size ≤ (s.current now).2 := by
  obtain ⟨history, hfind⟩ := runs_find (runs_make s.nested.length) now s (Nat.le_refl _)
  have hshape : (s.current now).1.window.shape = s.window.shape := hfind.shape
  have hfound := hs.found_current now
  unfold Found at hfound
  rw [hshape] at hfound
  refine hfound.imp_right fun ⟨hpassed, _⟩ => ⟨hpassed, hfind.size_le_of_passed hs ?_⟩
  show (s.current now).1.window.place ((s.current now).1.window.shape.slotOf now) = .passed
  rw [hshape, hpassed]

/-- A look whose cell is not stored for its slot. -/
def Detached (s : CellWindow) (now : UInt64) : Prop :=
  (s.current now).1.window.stored? (s.window.shape.slotOf now) ≠ some (s.current now).2

instance (s : CellWindow) (now : UInt64) : Decidable (s.Detached now) :=
  inferInstanceAs (Decidable (_ ≠ _))

theorem Sound.detached_iff (hs : s.Sound) :
    s.Detached now ↔ (s.current now).1.window.place (s.window.shape.slotOf now) = .passed := by
  unfold Detached Window.stored?
  rcases hs.stored_or_new now with hstored | ⟨hpassed, -⟩
  · rw [Window.place_eq_held_iff.mpr hstored]
    simp
  · rw [hpassed]
    simp

/-- A cell that is stored for a slot was not stored for another one before. -/
theorem Evolves.slot_eq (hst : s.Evolves t) (hs : s.Sound)
    (hstored : t.window.bucketAt (t.window.shape.slotOf now) =
      some ⟨t.window.shape.slotOf now, cell⟩)
    {b : Bucket Nat} (hb : s.window.bucketAt slot = some b) (hcell : b.value = cell) :
    b.slot = s.window.shape.slotOf now := by
  rw [hst.shape] at hstored
  rcases hst.bucketAt (s.window.shape.slotOf now) with hsame | ⟨b', hb', hnew, -⟩
  · exact Found.slot_eq (Or.inl (hsame.symm.trans hstored)) hs hb hcell
  · rw [hstored] at hb'
    cases hb'
    have hlt := hs.lt_size (s.window.shape.position slot).isLt hb
    rw [hcell] at hlt
    exact absurd hnew (Nat.not_le.mpr hlt)

/-! ## Clients that keep cells -/

/-- A cell that was kept, with the time for which it was found. -/
structure Handle where
  now : UInt64
  cell : Nat
deriving DecidableEq, Repr

/-- A client of a window: the cells that it keeps, its calls, and what it has written to the cells
it keeps, each write with the time of the cell. -/
structure Client where
  window : CellWindow
  handles : List Handle := []
  calls : List Call := []
  writes : List Addition := []

/-- What a client does. -/
inductive Use where
  | add (a : Addition)
  /-- A look at the cell of a slot, which is kept. -/
  | keep (now : UInt64)
  /-- A write to a cell that was kept. -/
  | write (handle : Nat) (delta : UInt64)
deriving DecidableEq, Repr

namespace Client

/-- A client of a window that has stored nothing yet. -/
def start (shape : Window.Shape) (nested : List (List Addition)) : Client where
  window := empty shape nested

/-- The client after a call to its window. -/
def call (c : Client) (x : Call) : Client :=
  { c with window := c.window.perform x, calls := c.calls ++ [x] }

/-- The client after one use of its window. A handle that it does not have is not written to. -/
def use (c : Client) : Use → Client
  | .add a => c.call (.add a)
  | .keep now =>
    { c.call (.current now) with handles := c.handles ++ [⟨now, (c.window.current now).2⟩] }
  | .write k delta =>
    match c.handles[k]? with
    | none => c
    | some h =>
      { c with window := c.window.bump h.cell delta, writes := c.writes ++ [⟨h.now, delta⟩] }

/-- The client after some uses of its window. -/
def useAll (c : Client) (ops : List Use) : Client := ops.foldl use c

/-- The calls that were done for a client: its own, and the nested additions used up. -/
def called (nested : List (List Addition)) (c : Client) : List Call :=
  c.calls ++ (nested.take (nested.length - c.window.nested.length)).flatten.map .add

/-- What was added for a client: by the calls, and by its writes to the cells that it keeps. -/
def added (nested : List (List Addition)) (c : Client) : List Call :=
  c.called nested ++ c.writes.map .add

variable {shape : Window.Shape} {nested : List (List Addition)} {c : Client}

theorem useAll_append (c : Client) (ops more : List Use) :
    c.useAll (ops ++ more) = (c.useAll ops).useAll more :=
  List.foldl_append

theorem useAll_snoc (c : Client) (ops : List Use) (op : Use) :
    c.useAll (ops ++ [op]) = (c.useAll ops).use op :=
  useAll_append c ops [op]

theorem evolves_use (c : Client) (op : Use) : c.window.Evolves (c.use op).window := by
  have hcall (x : Call) : c.window.Evolves (c.call x).window := by
    obtain ⟨found, history, hruns⟩ := runs_perform x c.window
    exact hruns.evolves
  cases op with
  | add a => exact hcall (.add a)
  | keep now => exact hcall (.current now)
  | write k delta =>
    rw [use]
    cases c.handles[k]? with
    | none => exact .refl _
    | some h => exact .of_window rfl (by simp [bump])

theorem evolves_useAll (c : Client) (ops : List Use) : c.window.Evolves (c.useAll ops).window := by
  induction ops using List.reverseRecOn with
  | nil => exact .refl _
  | append_singleton ops op ih =>
    rw [useAll_snoc]
    exact ih.trans (evolves_use _ op)

/-! ## What a client finds -/

/-- What holds for a client: its window shows all calls done for it and all its writes, in some
order and each at its own time; it writes to slots that it looked at; and what it found for a slot
stays with it. -/
structure Tracks (shape : Window.Shape) (nested : List (List Addition)) (c : Client) : Prop where
  sound : c.window.Sound
  history : ∃ history,
    Accounts (c.calls ++ c.writes.map .add) (empty shape nested) c.window history ∧
    c.window.shown = .after shape 0 (history.map Call.write)
  written : ∀ w ∈ c.writes, .current w.now ∈ c.calls
  kept : ∀ h ∈ c.handles, c.window.Found h.now h.cell ∧ .current h.now ∈ c.calls

theorem after_follow (shape : Window.Shape) (history later : List Call) :
    follow (.after shape 0 (history.map Call.write)) later =
      .after shape 0 ((history ++ later).map Call.write) := by
  rw [List.map_append, Window.after, Window.after, List.foldl_append, List.foldl_map (l := later)]
  rfl

theorem Tracks.start (shape : Window.Shape) (nested : List (List Addition)) :
    (start shape nested).Tracks shape nested where
  sound := sound_empty shape nested
  history := ⟨[], .refl _, shown_empty shape nested⟩
  written _ hw := nomatch hw
  kept _ hh := nomatch hh

theorem Tracks.call (h : c.Tracks shape nested) (x : Call) : (c.call x).Tracks shape nested := by
  obtain ⟨found, later, hruns⟩ := runs_perform x c.window
  obtain ⟨hsound, hshown⟩ := hruns.refines h.sound
  obtain ⟨history, haccount, hbefore⟩ := h.history
  refine ⟨hsound, ⟨history ++ later, ?_, ?_⟩,
    fun w hw => List.mem_append_left _ (h.written w hw), fun k hk =>
    ⟨(h.kept k hk).1.evolves h.sound hruns.evolves, List.mem_append_left _ (h.kept k hk).2⟩⟩
  · obtain ⟨used, hused, hperm⟩ := haccount.trans hruns.account
    refine ⟨used, hused, hperm.trans (List.Perm.append_right _ ?_)⟩
    show (c.calls ++ c.writes.map Call.add ++ [x]).Perm (c.calls ++ [x] ++ c.writes.map Call.add)
    rw [List.append_assoc, List.append_assoc]
    exact List.perm_append_comm.append_left _
  · exact (hshown.trans (congrArg (follow · later) hbefore)).trans
      (after_follow shape history later)

/-- A write to a cell that was kept shows as an addition at the time of the cell. -/
theorem Tracks.write (h : c.Tracks shape nested) {k : Handle} (hk : k ∈ c.handles)
    (delta : UInt64) :
    Tracks shape nested
      { c with window := c.window.bump k.cell delta, writes := c.writes ++ [⟨k.now, delta⟩] } := by
  obtain ⟨history, haccount, hbefore⟩ := h.history
  have hstays : c.window.Evolves (c.window.bump k.cell delta) := .of_window rfl (by simp [bump])
  refine ⟨h.sound.bump _ _, ⟨history ++ [.add ⟨k.now, delta⟩], ?_, ?_⟩,
    fun w hw => ?_, fun h' hh' =>
    ⟨(h.kept h' hh').1.evolves h.sound hstays, (h.kept h' hh').2⟩⟩
  · obtain ⟨used, hused, hperm⟩ := haccount.trans (.single (.add ⟨k.now, delta⟩) rfl)
    refine ⟨used, hused, ?_⟩
    rwa [List.map_append, ← List.append_assoc]
  · show (c.window.bump k.cell delta).shown = _
    rw [(h.kept k hk).1.shown_bump h.sound, hbefore, ← after_follow]
    rfl
  · rcases List.mem_append.mp hw with hw | hw
    · exact h.written w hw
    · rw [List.mem_singleton.mp hw]
      exact (h.kept k hk).2

theorem Tracks.use (h : c.Tracks shape nested) (op : Use) : (c.use op).Tracks shape nested := by
  cases op with
  | add a => exact h.call (.add a)
  | keep now =>
    obtain ⟨hsound, hhistory, hwritten, hkept⟩ := h.call (.current now)
    refine ⟨hsound, hhistory, hwritten, fun k hk => ?_⟩
    rcases List.mem_append.mp hk with hk | hk
    · exact hkept k hk
    · rw [List.mem_singleton.mp hk]
      exact ⟨h.sound.found_current now, List.mem_append_right _ (List.mem_singleton.mpr rfl)⟩
  | write k delta =>
    rw [Client.use]
    cases hk : c.handles[k]? with
    | none => exact h
    | some k => exact h.write (List.mem_of_getElem? hk) delta

/-- **Every write goes to its own slot**, through whatever cell it is done and whenever. -/
theorem Tracks.useAll (h : c.Tracks shape nested) (ops : List Use) :
    (c.useAll ops).Tracks shape nested := by
  induction ops using List.reverseRecOn with
  | nil => exact h
  | append_singleton ops op ih =>
    rw [useAll_snoc]
    exact ih.use op

section Tracked

variable (h : c.Tracks shape nested)
include h

theorem Tracks.shape_eq : c.window.window.shape = shape := by
  obtain ⟨history, -, hshown⟩ := h.history
  show c.window.shown.shape = shape
  rw [hshown, Window.shape_after]

/-- What a window shows are the calls done for its client and the writes of the client. -/
theorem Tracks.shown_eq : ∃ history : List Call, history.Perm (c.added nested) ∧
    c.window.shown = .after shape 0 (history.map Call.write) := by
  obtain ⟨history, ⟨used, hused, hperm⟩, hshown⟩ := h.history
  refine ⟨history, hperm.trans ?_, hshown⟩
  change nested = used ++ c.window.nested at hused
  have htake : nested.take (nested.length - c.window.nested.length) = used := by
    rw [hused, List.length_append, Nat.add_sub_cancel, List.take_left]
  rw [added, called, htake, List.append_assoc, List.append_assoc]
  exact List.perm_append_comm.append_left _

/-- The writes of a client are at times of its calls. -/
theorem Tracks.exists_write_iff {history : List Call} (hperm : history.Perm (c.added nested))
    (P : UInt64 → Prop) : (∃ x ∈ history.map Call.write, P x.now) ↔
      ∃ x ∈ c.called nested, P x.now := by
  constructor
  · rintro ⟨y, hy, hp⟩
    obtain ⟨x, hx, rfl⟩ := List.mem_map.mp hy
    rcases List.mem_append.mp (hperm.subset hx) with hx | hx
    · exact ⟨x, hx, hp⟩
    · obtain ⟨w, hw, rfl⟩ := List.mem_map.mp hx
      exact ⟨.current w.now, List.mem_append_left _ (h.written w hw), hp⟩
  · rintro ⟨x, hx, hp⟩
    exact ⟨x.write, List.mem_map_of_mem (hperm.symm.subset (List.mem_append_left _ hx)), hp⟩

/-- A position has moved on beyond a slot if a call for a later slot that needs it was done. -/
theorem Tracks.place_eq_passed_iff {slot : UInt64} : c.window.window.place slot = .passed ↔
    ∃ x ∈ c.called nested, shape.Overtakes (shape.slotOf x.now) slot := by
  obtain ⟨history, hperm, hshown⟩ := h.shown_eq
  rw [← place_shown_eq_passed, hshown, Window.place_after_eq_passed_iff]
  exact h.exists_write_iff hperm fun now => shape.Overtakes (shape.slotOf now) slot

/-- What a window shows for a slot: everything that was added to it, by calls and by writes to cells
that were kept for it, and nothing else. -/
theorem Tracks.stored?_shown (slot : UInt64) : c.window.shown.stored? slot =
    if (∃ x ∈ c.called nested, shape.slotOf x.now = slot) ∧
      ¬ ∃ x ∈ c.called nested, shape.Overtakes (shape.slotOf x.now) slot
    then some (((c.added nested).filter fun x => shape.slotOf x.now = slot).map Call.delta).sum
    else none := by
  obtain ⟨history, hperm, hshown⟩ := h.shown_eq
  have hsum : ((history.filter fun x => shape.slotOf x.now = slot).map Call.delta).sum =
      (((c.added nested).filter fun x => shape.slotOf x.now = slot).map Call.delta).sum := by
    refine ((hperm.filter _).map _).foldr_eq' (fun m _ n _ sum => ?_) 0
    rw [← UInt64.add_assoc, UInt64.add_comm n, UInt64.add_assoc]
  have hcalled := h.exists_write_iff hperm (shape.slotOf · = slot)
  have hovertaken :=
    not_congr (h.exists_write_iff hperm fun now => shape.Overtakes (shape.slotOf now) slot)
  rw [hshown, Window.stored?_after, valueAt_eq_sum, hsum]
  simp only [hcalled, ← hovertaken, not_exists, not_and]

/-- A cell that is kept belongs to one slot: at no time before was it stored for another one. -/
theorem Tracks.slot_eq (ops : List Use) {k : Handle} (hk : k ∈ (c.useAll ops).handles)
    {slot : UInt64}
    {b : Bucket Nat} (hb : c.window.window.bucketAt slot = some b) (hcell : b.value = k.cell) :
    b.slot = shape.slotOf k.now := by
  rw [← h.shape_eq]
  induction ops using List.reverseRecOn with
  | nil => exact (h.kept k hk).1.slot_eq h.sound hb hcell
  | append_singleton ops op ih =>
    rw [useAll_snoc] at hk
    cases op with
    | add a => exact ih hk
    | keep now =>
      rcases List.mem_append.mp hk with hk | hk
      · exact ih hk
      · cases List.mem_singleton.mp hk
        have hd := h.useAll ops
        have hbefore := evolves_useAll c ops
        have hthen := hbefore.trans (evolves_use _ (.keep now))
        rcases hd.sound.stored_or_new now with hstored | ⟨-, hnew⟩
        · refine hthen.slot_eq h.sound ?_ hb hcell
          rw [hthen.shape, ← hbefore.shape]
          exact hstored
        · have hlt := h.sound.lt_size (c.window.window.shape.position slot).isLt hb
          have hle := hbefore.size_le
          change b.value = ((c.useAll ops).window.current now).2 at hcell
          omega
    | write k' delta =>
      rw [Client.use] at hk
      cases hhandle : (c.useAll ops).handles[k']? with
      | none =>
        rw [hhandle] at hk
        exact ih hk
      | some h' =>
        rw [hhandle] at hk
        exact ih hk

/-- An interval shows what was added to its slot, and nothing that was there before. -/
theorem Tracks.count_eq {i : Window.Interval Nat} (hi : c.window.window.Finds i) :
    c.window.count i.value =
      (((c.added nested).filter fun x => shape.slotOf x.now = i.slot).map Call.delta).sum := by
  have hstored : c.window.shown.stored? i.slot = some (c.window.count i.value) := by
    rw [Window.stored?_eq_some_iff, bucketAt_shown, hi.bucketAt]
    rfl
  rw [h.stored?_shown] at hstored
  split_ifs at hstored with hcalled
  exact (Option.some.inj hstored).symm

/-- A second look at a slot returns the same cell, or a detached one if the position has moved on by
the time that it returns. -/
theorem Tracks.look_again {now : UInt64} {k : Handle} (hk : k ∈ c.handles)
    (hslot : shape.slotOf k.now = shape.slotOf now) :
    ((∃ x ∈ (c.use (.keep now)).called nested,
      shape.Overtakes (shape.slotOf x.now) (shape.slotOf now)) →
      c.window.Detached now) ∧
    ((¬ ∃ x ∈ (c.use (.keep now)).called nested,
      shape.Overtakes (shape.slotOf x.now) (shape.slotOf now)) →
      ¬ c.window.Detached now ∧ (c.window.current now).2 = k.cell) := by
  have hnext := h.use (.keep now)
  have hpassed : (c.window.current now).1.window.place (shape.slotOf now) = .passed ↔
      ∃ x ∈ (c.use (.keep now)).called nested,
        shape.Overtakes (shape.slotOf x.now) (shape.slotOf now) :=
    hnext.place_eq_passed_iff
  have hshape := hnext.shape_eq
  rw [h.sound.detached_iff, h.shape_eq, ← hpassed]
  refine ⟨id, fun hstays => ⟨hstays, ?_⟩⟩
  -- Neither cell is hidden, so both are stored for the slot.
  have hstored {k : Handle} (hk : k ∈ (c.use (.keep now)).handles)
      (hslot : shape.slotOf k.now = shape.slotOf now) :
      (c.window.current now).1.window.bucketAt (shape.slotOf now) =
        some ⟨shape.slotOf now, k.cell⟩ := by
    have hfound := (hnext.kept k hk).1
    unfold Found at hfound
    rw [hshape, hslot] at hfound
    exact hfound.resolve_right fun hhidden => hstays hhidden.1
  have hold := hstored (List.mem_append_left _ hk) hslot
  have hnew := hstored (List.mem_append_right _ (List.mem_singleton.mpr rfl)) (k := ⟨now, _⟩) rfl
  rw [hold] at hnew
  exact (congrArg Bucket.value (Option.some.inj hnew)).symm

/-- A detached cell is in no interval, neither before it is made nor ever after. -/
theorem Tracks.value_ne_of_detached (ops later : List Use) {now : UInt64}
    (hdetached : (c.useAll ops).window.Detached now) {i : Window.Interval Nat}
    (hi : c.window.window.Finds i ∨
      (((c.useAll ops).use (.keep now)).useAll later).window.window.Finds i) :
    i.value ≠ ((c.useAll ops).window.current now).2 := by
  have hd := h.useAll ops
  have hpassed := hd.sound.detached_iff.mp hdetached
  rcases hi with hi | hi
  · have hlt := h.sound.lt_size (c.window.window.shape.position i.slot).isLt hi.bucketAt
    have hle := (evolves_useAll c ops).size_le
    rcases hd.sound.stored_or_new now with hstored | ⟨-, hnew⟩
    · rw [Window.place_eq_held_iff.mpr hstored] at hpassed
      cases hpassed
    · exact Nat.ne_of_lt (Nat.lt_of_lt_of_le hlt (hle.trans hnew))
  · have hlook :=
      (hd.use (.keep now)).kept ⟨now, _⟩ (List.mem_append_right _ (List.mem_singleton.mpr rfl))
    have hshape := (hd.use (.keep now)).shape_eq
    rw [hd.shape_eq, ← hshape] at hpassed
    rcases hlook.1 with hstored | ⟨-, hlt, hhidden⟩
    · exact absurd ((Window.place_eq_held_iff.mpr hstored).symm.trans hpassed) (by simp)
    · have hnever := (evolves_useAll _ later).hidden hlt hhidden
      exact hnever _ (Fin.isLt _) _ hi.bucketAt

end Tracked

end Client

open Client

/-- **Kept cells never cross slots.** Whatever a client does with its window and the cells that it
keeps: the slot at a position never goes back, and it moves on with a cell that was not there. A
second look at a slot returns the same cell, unless a call for a later slot that needs the position
was done before it returns; then the cell is detached. A cell that is kept is not shown by any
interval of another slot, and a detached one by no interval at all, at no time. And an interval
shows the sum of just what was added to its slot, by calls and through kept cells, so that nothing
is left of what stood at the position before. -/
theorem handles_stay (shape : Window.Shape) (nested : List (List Addition))
    (ops more later : List Use)
    (now : UInt64) :
    let c := (start shape nested).useAll ops
    let d := c.useAll more
    let e := d.use (.keep now)
    let f := e.useAll later
    (∀ slot b, c.window.window.bucketAt slot = some b → ∃ b',
      d.window.window.bucketAt slot = some b' ∧
      (b' = b ∨ b.slot < b'.slot ∧ c.window.cells.size ≤ b'.value)) ∧
    (∀ h ∈ d.handles, shape.slotOf h.now = shape.slotOf now →
      ((∃ x ∈ e.called nested, shape.Overtakes (shape.slotOf x.now) (shape.slotOf now)) →
        d.window.Detached now) ∧
      ((¬ ∃ x ∈ e.called nested, shape.Overtakes (shape.slotOf x.now) (shape.slotOf now)) →
        ¬ d.window.Detached now ∧ (d.window.current now).2 = h.cell)) ∧
    (∀ h ∈ d.handles, ∀ i, c.window.window.Finds i ∨ d.window.window.Finds i → i.value = h.cell →
      i.slot = shape.slotOf h.now) ∧
    (d.window.Detached now → ∀ i, c.window.window.Finds i ∨ f.window.window.Finds i →
      i.value ≠ (d.window.current now).2) ∧
    ∀ i, d.window.window.Finds i →
      d.window.count i.value =
        (((d.added nested).filter fun x => shape.slotOf x.now = i.slot).map Call.delta).sum := by
  intro c d e f
  have hc : c.Tracks shape nested := (Tracks.start shape nested).useAll ops
  have hd : d.Tracks shape nested := hc.useAll more
  refine ⟨fun slot b hb => ?_, fun h hh hslot => hd.look_again hh hslot, fun h hh i hi hcell => ?_,
    fun hdetached i hi => hc.value_ne_of_detached more later hdetached hi,
      fun i hi => hd.count_eq hi⟩
  · rcases (evolves_useAll c more).bucketAt slot with hsame | ⟨b', hb', hnew, hlater⟩
    · exact ⟨b, hsame.trans hb, Or.inl rfl⟩
    · exact ⟨b', hb', Or.inr ⟨hlater b hb, hnew⟩⟩
  · rcases hi with hi | hi
    · exact hc.slot_eq more hh hi.bucketAt hcell
    · exact hd.slot_eq [] hh hi.bucketAt hcell

/-- In a ring of one position the cell of slot zero is kept, and slot one is added to. A late look
at slot zero returns a third cell; what is written to it, as what is written to the kept cell of
slot zero, shows nowhere. -/
theorem handles_stay_passing :
    let shape : Window.Shape := ⟨1, 10, 0, by decide, by decide⟩
    let d := ((start shape []).useAll [.keep 0, .write 0 7]).useAll [.add ⟨10, 1⟩, .write 0 2]
    let f := (d.use (.keep 5)).useAll [.write 1 9, .keep 12, .write 2 4]
    d.window.Detached 5 ∧ f.handles = [⟨0, 0⟩, ⟨5, 2⟩, ⟨12, 1⟩] ∧
      f.window.cells = #[9, 5, 9] ∧ f.window.shown.stored? 0 = none ∧
        f.window.shown.stored? 1 = some 5 ∧
      ∀ i, f.window.window.Finds i → i.value ≠ 2 := by
  intro shape d f
  have hdetached : d.window.Detached 5 := by decide +kernel
  obtain ⟨-, -, -, hnever, -⟩ := handles_stay shape []
    [.keep 0, .write 0 7] [.add ⟨10, 1⟩, .write 0 2] [.write 1 9, .keep 12, .write 2 4] 5
  refine ⟨hdetached,
    by decide +kernel, by decide +kernel, by decide +kernel, by decide +kernel, fun i hi => ?_⟩
  have hcell : (d.window.current 5).2 = 2 := by decide +kernel
  rw [← hcell]
  exact hnever hdetached i (Or.inr hi)

end CellWindow

end Admission
