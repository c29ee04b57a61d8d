import Admission.Proofs.Window.History
import Admission.Window.Cells

/-!
# Windows whose cells are made with additions

Making a cell for a slot may add to the window it is made for, and those additions may make cells
with additions of their own. By the time that the cell is there, its position may hold the slot, or
a later one, or a cell of an earlier slot that was not there before; then the position is looked at
again. Every look at a changed position has used up a list of nested additions, so all calls return,
and the window is as if all additions had been made one after another into a window whose cells are
plain, each nested addition before the call that it was nested in.

## Main definitions

* `CellWindow.Call`: an addition, or a look at the cell of a slot
* `CellWindow.Runs`: how a window does a task, and the calls that it has done with it, in their
  order
* `CellWindow.shown`: the window with the counts of its cells
* `CellWindow.Sound`: no cell is stored twice

## Main results

* `Runs.account`: the calls done are those asked for, and the nested additions used up
* `runs_performAll`: all calls return
* `Runs.refines`: each call shows as one write, at the time when it is done
* `Sound.found_current`: what a look at a cell returns
* `performAll_shown`: the window after calls with nested additions
-/

namespace Admission

namespace Window

variable {α : Type} {w : Window α} {slot now : UInt64} {v : α} {fresh : α} {f g : α → α}

theorem place_eq_held_iff : w.place slot = .held v ↔ w.bucketAt slot = some ⟨slot, v⟩ := by
  unfold place
  cases hb : w.bucketAt slot with
  | none => simp
  | some b =>
    obtain ⟨other, u⟩ := b
    dsimp only
    by_cases heq : other = slot
    · simp [heq]
    · rw [if_neg heq]
      constructor
      · intro h
        split at h <;> cases h
      · intro h
        exact absurd (congrArg Bucket.slot (Option.some.inj h)) heq

/-- What a position holds after a write. -/
theorem ring_put_eq {i : Nat} (hi : i < (w.put slot v).shape.capacity) {b : Bucket α}
    (h : (w.put slot v).ring[i] = some b) :
    i = w.shape.position slot ∧ b = ⟨slot, v⟩ ∨
      ∃ hi : i < w.shape.capacity, w.ring[i] = some b := by
  have hi' : i < w.shape.capacity := hi
  have hset : (w.put slot v).ring[i] =
      if (w.shape.position slot).val = i then some ⟨slot, v⟩ else w.ring[i] :=
    Vector.getElem_set (w.shape.position slot).isLt hi'
  replace h := hset.symm.trans h
  split_ifs at h with hpos
  · exact Or.inl ⟨hpos.symm, (Option.some.inj h).symm⟩
  · exact Or.inr ⟨hi', h⟩

theorem put_put {u : α} : (w.put slot v).put slot u = w.put slot u := by
  simp [put]

theorem put_of_bucketAt (h : w.bucketAt slot = some ⟨slot, v⟩) : w.put slot v = w := by
  unfold put
  rw [← h]
  simp [bucketAt]

theorem update_of_held (h : w.place (w.shape.slotOf now) = .held v) :
    w.update now fresh f = w.put (w.shape.slotOf now) (f v) := by
  simp only [update, h]

theorem update_of_vacant (h : w.place (w.shape.slotOf now) = .vacant) :
    w.update now fresh f = w.put (w.shape.slotOf now) (f fresh) := by
  simp only [update, h]

theorem update_of_passed (h : w.place (w.shape.slotOf now) = .passed) :
    w.update now fresh f = w := by
  simp only [update, h]

theorem place_put_self : (w.put slot v).place slot = .held v :=
  place_eq_held_iff.mpr bucketAt_put_self

/-- A window with other accumulators. -/
def map {β : Type} (f : α → β) (w : Window α) : Window β where
  shape := w.shape
  ring := w.ring.map (Option.map fun b => ⟨b.slot, f b.value⟩)

theorem bucketAt_map {β : Type} (f : α → β) (w : Window α) (slot : UInt64) :
    (w.map f).bucketAt slot = (w.bucketAt slot).map fun b => ⟨b.slot, f b.value⟩ := by
  simp [bucketAt, map]

theorem map_put {β : Type} (f : α → β) (w : Window α) (slot : UInt64) (v : α) :
    (w.put slot v).map f = (w.map f).put slot (f v) := by
  simp only [map, put, Vector.map_set]
  rfl

/-- Only the accumulators that are stored elsewhere matter for a window in which a slot is
written. -/
theorem put_map_congr {β : Type} {f g : α → β} {u : β}
    (h : ∀ (i : Nat) (hi : i < w.shape.capacity) (b : Bucket α), i ≠ w.shape.position slot →
      w.ring[i] = some b → f b.value = g b.value) : (w.map f).put slot u =
        (w.map g).put slot u := by
  unfold put map
  dsimp only
  congr 1
  apply Vector.ext
  intro i hi
  rw [Vector.getElem_set, Vector.getElem_set, Vector.getElem_map, Vector.getElem_map]
  split_ifs with hpos
  · rfl
  · cases hb : w.ring[i] with
    | none => rfl
    | some b => rw [Option.map_some, Option.map_some, h i hi b (fun heq => hpos heq.symm) hb]

theorem map_congr {β : Type} {f g : α → β}
    (h : ∀ (i : Nat) (hi : i < w.shape.capacity) (b : Bucket α), w.ring[i] = some b →
      f b.value = g b.value) : w.map f = w.map g := by
  unfold map
  congr 1
  apply Vector.ext
  intro i hi
  rw [Vector.getElem_map, Vector.getElem_map]
  cases hb : w.ring[i] with
  | none => rfl
  | some b => rw [Option.map_some, Option.map_some, h i hi b hb]

/-- A write after a write that has left a value for the slot. -/
theorem put_update : (w.put (w.shape.slotOf now) v).update now fresh g = w.put
    (w.shape.slotOf now) (g v) :=
  (update_of_held (w := w.put (w.shape.slotOf now) v) place_put_self).trans put_put

/-- Two writes at one time. -/
theorem update_update : (w.update now fresh f).update now fresh g = w.update now fresh (g ∘ f) := by
  cases h : w.place (w.shape.slotOf now) with
  | held v =>
    have hfirst : w.update now fresh f = w.put (w.shape.slotOf now) (f v) := update_of_held h
    have hboth : w.update now fresh (g ∘ f) = w.put (w.shape.slotOf now) (g (f v)) :=
      update_of_held h
    rw [hfirst, hboth, put_update]
  | vacant =>
    have hfirst : w.update now fresh f = w.put (w.shape.slotOf now) (f fresh) := update_of_vacant h
    have hboth : w.update now fresh (g ∘ f) = w.put (w.shape.slotOf now) (g (f fresh)) :=
      update_of_vacant h
    rw [hfirst, hboth, put_update]
  | passed =>
    have hkept (f : α → α) : w.update now fresh f = w := update_of_passed h
    rw [hkept f, hkept g, hkept (g ∘ f)]

/-- A position never goes back to an earlier slot. -/
theorem place_update_of_passed (h : w.place slot = .passed) :
    (w.update now fresh f).place slot = .passed := by
  have hlater : ∃ b, w.bucketAt slot = some b ∧ slot < b.slot := by
    unfold place at h
    cases hb : w.bucketAt slot with
    | none =>
      rw [hb] at h
      cases h
    | some b =>
      rw [hb] at h
      dsimp only at h
      split at h
      · cases h
      · split at h
        · exact ⟨b, rfl, ‹_›⟩
        · cases h
  obtain ⟨b, hb, hlt⟩ := hlater
  have hpassed {b : Bucket α} (hb : (w.update now fresh f).bucketAt slot = some b)
      (hlt : slot < b.slot) :
      (w.update now fresh f).place slot = .passed := by
    unfold place
    rw [hb]
    dsimp only
    rw [if_neg fun h => UInt64.ne_of_lt hlt h.symm, if_pos hlt]
  have hnext := bucketAt_update w now fresh f slot
  rw [hb] at hnext
  split_ifs at hnext
  · rw [written] at hnext
    split_ifs at hnext with heq hearlier
    · exact hpassed hnext (heq ▸ hlt)
    · exact hpassed hnext hlt
    · have hle : b.slot ≤ w.shape.slotOf now := UInt64.not_lt.mp hearlier
      exact hpassed hnext (UInt64.lt_of_lt_of_le hlt hle)
  · exact hpassed hnext hlt

end Window

namespace CellWindow

/-! ## Calls -/

/-- What is asked of a window. -/
inductive Call where
  | add (a : Addition)
  /-- A look at the cell of a slot, which makes it if need be. -/
  | current (now : UInt64)
deriving DecidableEq, Repr

namespace Call

/-- The time of a call. -/
def now : Call → UInt64
  | add a => a.now
  | current now => now

/-- What a call adds. -/
def delta : Call → UInt64
  | add a => a.delta
  | current _ => 0

/-- A call as a write to a window of counts. -/
def write (c : Call) : Window.Write UInt64 := ⟨c.now, (· + c.delta)⟩

end Call

/-- The window after a call. -/
def perform (s : CellWindow) : Call → CellWindow
  | .add a => (s.add a).1
  | .current now => (s.current now).1

/-- The window after calls. -/
def performAll (s : CellWindow) (calls : List Call) : CellWindow := calls.foldl perform s

/-! ## How calls are done -/

/-- What a window is at. -/
inductive Task where
  | make
  /-- The search for a stored cell of a slot. -/
  | locate (now : UInt64)
  /-- The search for a cell of a slot, be it a detached one. -/
  | find (now : UInt64)
  | call (c : Call)
  | calls (cs : List Call)

/-- The calls that a task consists of. -/
def Task.asked : Task → List Call
  | .call c => [c]
  | .calls cs => cs
  | _ => []

/-- How a window does a task: the window before and after it, the cell that it has come to, and all
calls that were done with it in the order in which they were done. A call is done when it has found
its cell, which is after everything that was nested in it. -/
inductive Runs : Task → CellWindow → CellWindow → Option Nat → List Call → Prop where
  | plain {s} (h : s.nested = []) : Runs .make s s.fresh.1 (some s.fresh.2) []
  | nesting {s t additions rest found history} (h : s.nested = additions :: rest)
      (hcalls : Runs (.calls (additions.map .add)) { s with nested := rest } t found history) :
      Runs .make s t.fresh.1 (some t.fresh.2) history
  | held {s now cell} (h : s.window.place (s.window.shape.slotOf now) = .held cell) :
      Runs (.locate now) s s (some cell) []
  | passed {s now} (h : s.window.place (s.window.shape.slotOf now) = .passed) :
      Runs (.locate now) s s none []
  | install {s now made cell history} (h : s.window.place (s.window.shape.slotOf now) = .vacant)
      (hmake : Runs .make s made (some cell) history)
      (hsame : made.window.bucketAt (s.window.shape.slotOf now) =
        s.window.bucketAt (s.window.shape.slotOf now)) :
      Runs (.locate now) s
        { made with window := made.window.put (s.window.shape.slotOf now) cell } (some cell) history
  | retry {s now made cell history t found later}
      (h : s.window.place (s.window.shape.slotOf now) = .vacant)
      (hmake : Runs .make s made (some cell) history)
      (hchanged : made.window.bucketAt (s.window.shape.slotOf now) ≠
        s.window.bucketAt (s.window.shape.slotOf now))
      (hagain : Runs (.locate now) made t found later) :
      Runs (.locate now) s t found (history ++ later)
  | stored {s now t cell history} (hlocate : Runs (.locate now) s t (some cell) history) :
      Runs (.find now) s t (some cell) history
  | detached {s now t u cell history later} (hlocate : Runs (.locate now) s t none history)
      (hmake : Runs .make t u (some cell) later) :
      Runs (.find now) s u (some cell) (history ++ later)
  | add {s a t cell history} (hfind : Runs (.find a.now) s t (some cell) history) :
      Runs (.call (.add a)) s (t.bump cell a.delta) (some cell) (history ++ [.add a])
  | current {s now t cell history} (hfind : Runs (.find now) s t (some cell) history) :
      Runs (.call (.current now)) s t (some cell) (history ++ [.current now])
  | nil {s} : Runs (.calls []) s s none []
  | cons {s c t found history cs u last later} (hcall : Runs (.call c) s t found history)
      (hrest : Runs (.calls cs) t u last later) :
      Runs (.calls (c :: cs)) s u last (history ++ later)

variable {s t u : CellWindow} {task : Task} {found : Option Nat} {history : List Call}
    {now slot : UInt64}
  {cell : Nat}

/-- The calls done between two windows are those asked for, and the nested additions used up. -/
def Accounts (asked : List Call) (s t : CellWindow) (history : List Call) : Prop :=
  ∃ used, s.nested = used ++ t.nested ∧ history.Perm (asked ++ used.flatten.map .add)

theorem Accounts.refl (s : CellWindow) : Accounts [] s s [] := ⟨[], rfl, .nil⟩

theorem Accounts.single (c : Call) (h : s.nested = t.nested) : Accounts [c] s t [c] :=
  ⟨[], h, .refl _⟩

theorem Accounts.trans {asked more later : List Call} (h : Accounts asked s t history)
    (h' : Accounts more t u later) : Accounts (asked ++ more) s u (history ++ later) := by
  obtain ⟨used, hused, hperm⟩ := h
  obtain ⟨used', hused', hperm'⟩ := h'
  refine ⟨used ++ used', by rw [hused, hused', List.append_assoc], ?_⟩
  rw [List.flatten_append, List.map_append]
  refine (hperm.append hperm').trans ?_
  have hswap : (used.flatten.map Call.add ++ more).Perm (more ++ used.flatten.map Call.add) :=
    List.perm_append_comm
  have hall := (hswap.append_left asked).append_right (used'.flatten.map Call.add)
  simpa only [List.append_assoc] using hall

theorem Runs.account (h : Runs task s t found history) : Accounts task.asked s t history := by
  induction h with
  | plain h => exact .refl _
  | nesting h _ ih =>
    obtain ⟨used, hused, hperm⟩ := ih
    refine ⟨_ :: used, by rw [h]; exact congrArg _ hused, ?_⟩
    rwa [List.flatten_cons, List.map_append]
  | held | passed => exact .refl _
  | install _ _ _ ih => exact ih
  | retry _ _ _ _ ih ih' => exact ih.trans ih'
  | stored _ ih => exact ih
  | detached _ _ ih ih' => exact ih.trans ih'
  | add _ ih | current _ ih => exact ih.trans (.single _ rfl)
  | nil => exact .refl _
  | cons _ _ ih ih' => exact ih.trans ih'

theorem Runs.length_le (h : Runs task s t found history) : t.nested.length ≤ s.nested.length := by
  obtain ⟨used, hused, -⟩ := h.account
  rw [hused, List.length_append]
  omega

/-- Making a cell uses up an entry of the nested additions, if there is one. -/
theorem Runs.length_make (h : Runs .make s t found history) :
    s.nested = [] ∧ t.window = s.window ∨ t.nested.length < s.nested.length := by
  cases h with
  | plain h => exact Or.inl ⟨h, rfl⟩
  | nesting h hcalls =>
    have hle := hcalls.length_le
    refine Or.inr ?_
    rw [h, List.length_cons]
    exact Nat.lt_succ_of_le hle

theorem Runs.shape (h : Runs task s t found history) : t.window.shape = s.window.shape := by
  induction h with
  | plain | held | passed | nil => rfl
  | nesting _ _ ih | install _ _ _ ih | stored _ ih | add _ ih | current _ ih => exact ih
  | retry _ _ _ _ ih ih' | detached _ _ ih ih' | cons _ _ ih ih' => exact ih'.trans ih

/-- Without nested additions, the calls done are those asked for in their order. -/
theorem Runs.quiet (h : Runs task s t found history) (hs : s.nested = []) :
    history = task.asked ∧ t.nested = [] := by
  have hnext {s t : CellWindow} {task : Task} {found : Option Nat} {history : List Call}
      (h : Runs task s t found history) (hs : s.nested = []) : t.nested = [] := by
    have hle := h.length_le
    rw [hs] at hle
    exact List.eq_nil_of_length_eq_zero (Nat.le_zero.mp hle)
  refine ⟨?_, hnext h hs⟩
  induction h with
  | plain | held | passed | nil => rfl
  | nesting h =>
    rw [hs] at h
    cases h
  | install _ _ _ ih => exact ih hs
  | retry _ hmake _ _ ih ih' => rw [ih hs, ih' (hnext hmake hs)]; rfl
  | stored _ ih => exact ih hs
  | detached hlocate _ ih ih' => rw [ih hs, ih' (hnext hlocate hs)]; rfl
  | add _ ih | current _ ih => rw [ih hs]; rfl
  | cons hcall _ ih ih' => rw [ih hs, ih' (hnext hcall hs)]; rfl

/-! ## All calls return -/

section Returns

variable {making : CellWindow → CellWindow × Nat} {depth : Nat}
  (hmaking : ∀ s, s.nested.length ≤ depth →
    ∃ history, Runs .make s (making s).1 (some (making s).2) history)
include hmaking

/-- A search comes to its end: each look at a changed position has used up an entry of the nested
additions. -/
theorem runs_locate (now : UInt64) (tries : Nat) (s : CellWindow) (hs : s.nested.length ≤ depth)
    (htries : s.nested.length < tries) :
    ∃ history, Runs (.locate now) s (locate making tries (s.window.shape.slotOf now) s).1
      (locate making tries (s.window.shape.slotOf now) s).2 history := by
  induction tries generalizing s with
  | zero => exact absurd htries (Nat.not_lt_zero _)
  | succ tries ih =>
    rw [locate]
    cases hplace : s.window.place (s.window.shape.slotOf now) with
    | held cell => exact ⟨[], .held hplace⟩
    | passed => exact ⟨[], .passed hplace⟩
    | vacant =>
      obtain ⟨history, hmake⟩ := hmaking s hs
      dsimp only
      by_cases hsame : (making s).1.window.bucketAt (s.window.shape.slotOf now) =
          s.window.bucketAt (s.window.shape.slotOf now)
      · rw [if_pos hsame]
        exact ⟨history, .install hplace hmake hsame⟩
      · rw [if_neg hsame]
        rcases hmake.length_make with ⟨-, hwindow⟩ | hless
        · exact absurd (by rw [hwindow]) hsame
        · obtain ⟨later, hagain⟩ := ih (making s).1 (by omega) (by omega)
          rw [hmake.shape] at hagain
          exact ⟨history ++ later, .retry hplace hmake hsame hagain⟩

theorem runs_find (now : UInt64) (s : CellWindow) (hs : s.nested.length ≤ depth) :
    ∃ history, Runs (.find now) s (currentWith making now s).1 (some (currentWith making now s).2)
      history := by
  obtain ⟨history, hlocate⟩ := runs_locate hmaking now _ s hs (Nat.lt_succ_self _)
  rw [currentWith]
  rcases hanswer :
    locate making (s.nested.length + 1) (s.window.shape.slotOf now) s with ⟨t, _ | cell⟩
  · rw [hanswer] at hlocate
    obtain ⟨later, hmake⟩ := hmaking t (Nat.le_trans hlocate.length_le hs)
    exact ⟨history ++ later, .detached hlocate hmake⟩
  · rw [hanswer] at hlocate
    exact ⟨history, .stored hlocate⟩

theorem runs_add (a : Addition) (s : CellWindow) (hs : s.nested.length ≤ depth) :
    ∃ found history, Runs (.call (.add a)) s (addWith making a s).1 found history := by
  obtain ⟨history, hfind⟩ := runs_find hmaking a.now s hs
  exact ⟨_, _, .add hfind⟩

theorem runs_additions (additions : List Addition) (s : CellWindow) (hs : s.nested.length ≤ depth) :
    ∃ found history, Runs (.calls (additions.map .add)) s
      (additions.foldl (fun s a => (addWith making a s).1) s) found history := by
  induction additions generalizing s with
  | nil => exact ⟨none, [], .nil⟩
  | cons a additions ih =>
    obtain ⟨found, history, hcall⟩ := runs_add hmaking a s hs
    obtain ⟨last, later, hrest⟩ := ih (addWith making a s).1 (Nat.le_trans hcall.length_le hs)
    exact ⟨last, history ++ later, .cons hcall hrest⟩

end Returns

/-- The making of a cell comes to its end if there are no more entries of nested additions than it
may go deep. -/
theorem runs_make (depth : Nat) (s : CellWindow) (hs : s.nested.length ≤ depth) :
    ∃ history, Runs .make s (make depth s).1 (some (make depth s).2) history := by
  induction depth generalizing s with
  | zero => exact ⟨[], .plain (List.eq_nil_of_length_eq_zero (Nat.le_zero.mp hs))⟩
  | succ depth ih =>
    rw [make]
    cases hnested : s.nested with
    | nil => exact ⟨[], .plain hnested⟩
    | cons additions rest =>
      rw [hnested, List.length_cons] at hs
      obtain ⟨found, history, hcalls⟩ :=
        runs_additions ih additions { s with nested := rest } (Nat.le_of_succ_le_succ hs)
      exact ⟨history, .nesting hnested hcalls⟩

theorem runs_perform (c : Call) (s : CellWindow) :
    ∃ found history, Runs (.call c) s (s.perform c) found history := by
  have hmaking := runs_make s.nested.length
  cases c with
  | add a => exact runs_add hmaking a s (Nat.le_refl _)
  | current now =>
    obtain ⟨history, hfind⟩ := runs_find hmaking now s (Nat.le_refl _)
    exact ⟨_, _, .current hfind⟩

/-- All calls return. -/
theorem runs_performAll (calls : List Call) (s : CellWindow) :
    ∃ found history, Runs (.calls calls) s (s.performAll calls) found history := by
  induction calls generalizing s with
  | nil => exact ⟨none, [], .nil⟩
  | cons c calls ih =>
    obtain ⟨found, history, hcall⟩ := runs_perform c s
    obtain ⟨last, later, hrest⟩ := ih (s.perform c)
    exact ⟨last, history ++ later, .cons hcall hrest⟩

/-! ## Counts -/

/-- The window with the counts of its cells. -/
def shown (s : CellWindow) : Window UInt64 := s.window.map s.count

/-- Every stored cell is there, and no cell is stored twice. -/
structure Sound (s : CellWindow) : Prop where
  lt_size {i : Nat} (hi : i < s.window.shape.capacity) {b : Bucket Nat}
    (h : s.window.ring[i] = some b) :
    b.value < s.cells.size
  eq_of_value {i j : Nat} (hi : i < s.window.shape.capacity) (hj : j < s.window.shape.capacity)
    {b b' : Bucket Nat} (h : s.window.ring[i] = some b) (h' : s.window.ring[j] = some b')
    (heq : b.value = b'.value) : i = j

/-- A cell that no position shows. -/
def Hidden (s : CellWindow) (cell : Nat) : Prop :=
  ∀ (i : Nat) (hi : i < s.window.shape.capacity) (b : Bucket Nat), s.window.ring[i] = some b →
    b.value ≠ cell

theorem bucketAt_shown :
    s.shown.bucketAt slot = (s.window.bucketAt slot).map fun b => ⟨b.slot, s.count b.value⟩ :=
  Window.bucketAt_map _ _ _

theorem place_shown_of_held (h : s.window.place slot = .held cell) :
    s.shown.place slot = .held (s.count cell) := by
  rw [Window.place_eq_held_iff] at h ⊢
  rw [bucketAt_shown, h]
  rfl

theorem place_shown_eq_vacant : s.shown.place slot = .vacant ↔ s.window.place slot = .vacant := by
  unfold Window.place
  rw [bucketAt_shown]
  cases s.window.bucketAt slot with
  | none => simp
  | some b =>
    dsimp only [Option.map_some]
    split_ifs <;> simp

theorem place_shown_eq_passed : s.shown.place slot = .passed ↔ s.window.place slot = .passed := by
  unfold Window.place
  rw [bucketAt_shown]
  cases s.window.bucketAt slot with
  | none => simp
  | some b =>
    dsimp only [Option.map_some]
    split_ifs <;> simp

/-- A new cell shows nowhere, and nothing else changes. -/
theorem count_fresh (s : CellWindow) (cell : Nat) : s.fresh.1.count cell = s.count cell := by
  simp only [count, fresh, Array.getD_eq_getD_getElem?, Array.getElem?_push]
  split_ifs with h
  · rw [h, Array.getElem?_eq_none (Nat.le_refl _)]
    rfl
  · rfl

theorem shown_fresh (s : CellWindow) : s.fresh.1.shown = s.shown :=
  congrArg s.window.map (funext (count_fresh s))

theorem Sound.fresh (hs : s.Sound) : s.fresh.1.Sound where
  lt_size hi _ h := by
    have hlt := hs.lt_size hi h
    simp only [CellWindow.fresh, Array.size_push]
    omega
  eq_of_value := hs.eq_of_value

theorem Sound.hidden_fresh (hs : s.Sound) : s.fresh.1.Hidden s.fresh.2 :=
  fun _ hi _ h => Nat.ne_of_lt (hs.lt_size hi h)

/-- A cell that was not stored is stored for a slot. -/
theorem Sound.put (hs : s.Sound) (hcell : cell < s.cells.size) (hhidden : s.Hidden cell)
    (slot : UInt64) :
    Sound { s with window := s.window.put slot cell } where
  lt_size hi b h := by
    rcases Window.ring_put_eq hi h with ⟨-, rfl⟩ | ⟨hi, h⟩
    · exact hcell
    · exact hs.lt_size hi h
  eq_of_value hi hj b b' h h' heq := by
    rcases Window.ring_put_eq hi h with ⟨hpos, rfl⟩ | ⟨hi, h⟩
    · rcases Window.ring_put_eq hj h' with ⟨hpos', rfl⟩ | ⟨hj, h'⟩
      · rw [hpos, hpos']
      · exact absurd heq.symm (hhidden _ hj _ h')
    · rcases Window.ring_put_eq hj h' with ⟨hpos', rfl⟩ | ⟨hj, h'⟩
      · exact absurd heq (hhidden _ hi _ h)
      · exact hs.eq_of_value hi hj h h' heq

theorem shown_put (s : CellWindow) (slot : UInt64) (cell : Nat) :
    shown { s with window := s.window.put slot cell } = s.shown.put slot (s.count cell) :=
  Window.map_put _ _ _ _

theorem count_bump (s : CellWindow) (cell : Nat) (delta : UInt64) (other : Nat)
    (hcell : cell < s.cells.size) :
    (s.bump cell delta).count other =
      if other = cell then s.count cell + delta else s.count other := by
  simp only [count, bump, Array.getD_eq_getD_getElem?, Array.getElem?_modify]
  by_cases heq : other = cell
  · subst heq
    rw [if_pos rfl, if_pos rfl, Array.getElem?_eq_getElem hcell]
    rfl
  · rw [if_neg fun h => heq h.symm, if_neg heq]

theorem Sound.bump (hs : s.Sound) (cell : Nat) (delta : UInt64) : (s.bump cell delta).Sound where
  lt_size hi _ h := by
    have hlt := hs.lt_size hi h
    simp only [CellWindow.bump, Array.size_modify]
    exact hlt
  eq_of_value := hs.eq_of_value

/-- What is added to a cell that no position shows is lost. -/
theorem shown_bump_of_hidden (hhidden : s.Hidden cell) (hcell : cell < s.cells.size)
    (delta : UInt64) :
    (s.bump cell delta).shown = s.shown := by
  apply Window.map_congr
  intro i hi b hb
  rw [count_bump s cell delta b.value hcell, if_neg (hhidden i hi b hb)]

/-- What is added to a stored cell shows at its position. -/
theorem Sound.shown_bump (hs : s.Sound) (h : s.window.bucketAt slot = some ⟨slot, cell⟩)
    (delta : UInt64) : (s.bump cell delta).shown = s.shown.put slot (s.count cell + delta) := by
  have hcell : cell < s.cells.size := hs.lt_size (s.window.shape.position slot).isLt h
  have hself : (s.bump cell delta).count cell = s.count cell + delta := by
    rw [count_bump s cell delta cell hcell, if_pos rfl]
  have hstored : (s.bump cell delta).shown.bucketAt slot = some ⟨slot, s.count cell + delta⟩ := by
    rw [bucketAt_shown, ← hself]
    show Option.map _ (s.window.bucketAt slot) = _
    rw [h]
    rfl
  rw [← Window.put_of_bucketAt hstored]
  apply Window.put_map_congr
  intro i hi b hpos hb
  have hother : b.value ≠ cell := fun heq =>
    hpos (hs.eq_of_value hi (s.window.shape.position slot).isLt hb h heq)
  rw [count_bump s cell delta b.value hcell, if_neg hother]

/-! ## Calls as writes -/

/-- A window of counts after calls without nested additions. -/
def follow (w : Window UInt64) (calls : List Call) : Window UInt64 :=
  calls.foldl (fun w c => w.update c.now 0 (· + c.delta)) w

theorem follow_append (w : Window UInt64) (calls more : List Call) :
    follow w (calls ++ more) = follow (follow w calls) more := List.foldl_append

theorem follow_snoc (w : Window UInt64) (calls : List Call) (c : Call) :
    follow w (calls ++ [c]) = (follow w calls).update c.now 0 (· + c.delta) :=
      follow_append w calls [c]

theorem place_follow_of_passed {w : Window UInt64} (h : w.place slot = .passed)
    (calls : List Call) :
    (follow w calls).place slot = .passed := by
  induction calls generalizing w with
  | nil => exact h
  | cons c calls ih => exact ih (Window.place_update_of_passed h)

/-- A cell that was found for a time is the stored cell of the slot, or a detached one that shows
nowhere if the position of the slot has moved on. -/
def Found (s : CellWindow) (now : UInt64) (cell : Nat) : Prop :=
  s.window.bucketAt (s.window.shape.slotOf now) = some ⟨s.window.shape.slotOf now, cell⟩ ∨
    (s.window.place (s.window.shape.slotOf now) = .passed ∧ cell < s.cells.size ∧ s.Hidden cell)

/-- What is added to a cell that was found shows as a write to the slot. -/
theorem Found.shown_bump (h : s.Found now cell) (hs : s.Sound) (delta : UInt64) :
    (s.bump cell delta).shown = s.shown.update now 0 (· + delta) := by
  rcases h with hstored | ⟨hpassed, hcell, hhidden⟩
  · have hplace := place_shown_of_held (Window.place_eq_held_iff.mpr hstored)
    have hupdate : s.shown.update now 0 (· + delta) = s.shown.put _ (s.count cell + delta) :=
      Window.update_of_held hplace
    rw [hs.shown_bump hstored, hupdate]
    rfl
  · have hplace := place_shown_eq_passed.mpr hpassed
    rw [shown_bump_of_hidden hhidden hcell]
    exact (Window.update_of_passed hplace).symm

/-- How a task shows: as the calls done with it, and a look at the slot whose cell has been
found. -/
def Refines (s t : CellWindow) (found : Option Nat) (history : List Call) : Task → Prop
  | .make => ∃ cell, found = some cell ∧ t.shown = follow s.shown history ∧ cell < t.cells.size ∧
      t.Hidden cell ∧ t.count cell = 0
  | .locate now =>
    match found with
    | some cell => t.shown = (follow s.shown history).update now 0 (· + 0) ∧
        t.window.bucketAt (t.window.shape.slotOf now) = some ⟨t.window.shape.slotOf now, cell⟩
    | none => t.shown = follow s.shown history ∧
        t.window.place (t.window.shape.slotOf now) = .passed
  | .find now => ∃ cell, found = some cell ∧
      t.shown = (follow s.shown history).update now 0 (· + 0) ∧ t.Found now cell
  | .call _ => t.shown = follow s.shown history
  | .calls _ => t.shown = follow s.shown history

/-- **Calls are done one after another.** Whatever is nested in a task shows before it, and each
call shows as one write at the time when it is done. -/
theorem Runs.refines (h : Runs task s t found history) (hs : s.Sound) :
    t.Sound ∧ Refines s t found history task := by
  induction h with
  | @plain s _ =>
    refine ⟨hs.fresh, _, rfl, shown_fresh s, ?_, hs.hidden_fresh, ?_⟩
    · simp [fresh]
    · rw [count_fresh]
      simp [count, fresh]
  | @nesting s t _ rest _ _ _ _ ih =>
    have hrest : Sound { s with nested := rest } := ⟨hs.lt_size, hs.eq_of_value⟩
    obtain ⟨ht, hshown⟩ := ih hrest
    refine ⟨ht.fresh, _, rfl, (shown_fresh t).trans hshown, ?_, ht.hidden_fresh, ?_⟩
    · simp [fresh]
    · rw [count_fresh]
      simp [count, fresh]
  | @held s now cell h =>
    have hstored := Window.place_eq_held_iff.mp h
    refine ⟨hs, ?_, hstored⟩
    have hcount : s.shown.bucketAt (s.window.shape.slotOf now) =
        some ⟨s.window.shape.slotOf now, s.count cell + 0⟩ := by
      rw [bucketAt_shown, hstored, UInt64.add_zero]
      rfl
    have hupdate : s.shown.update now 0 (· + 0) = s.shown.put _ (s.count cell + 0) :=
      Window.update_of_held (place_shown_of_held h)
    exact (hupdate.trans (Window.put_of_bucketAt hcount)).symm
  | passed h => exact ⟨hs, rfl, h⟩
  | @install s now made cell history h hmake hsame ih =>
    obtain ⟨hmade, _, ⟨⟩, hshown, hcell, hhidden, hzero⟩ := ih hs
    have hshape := hmake.shape
    have hvacant : made.shown.place (made.shown.shape.slotOf now) = .vacant := by
      rw [place_shown_eq_vacant]
      show made.window.place (made.window.shape.slotOf now) = _
      rw [hshape]
      unfold Window.place at h ⊢
      rwa [hsame]
    refine ⟨hmade.put hcell hhidden _, ?_, ?_⟩
    · rw [shown_put, hzero, ← hshown, Window.update_of_vacant hvacant, ← hshape]
      rfl
    · show (made.window.put _ cell).bucketAt (made.window.shape.slotOf now) =
        some ⟨made.window.shape.slotOf now, cell⟩
      rw [hshape]
      exact Window.bucketAt_put_self
  | @retry s now made cell history t found later _ _ _ _ ih ih' =>
    obtain ⟨hmade, _, ⟨⟩, hshown, -⟩ := ih hs
    obtain ⟨ht, hlater⟩ := ih' hmade
    refine ⟨ht, ?_⟩
    cases found with
    | none =>
      rw [Refines, follow_append, ← hshown]
      exact hlater
    | some other =>
      rw [Refines, follow_append, ← hshown]
      exact hlater
  | stored _ ih =>
    obtain ⟨ht, hshown, hstored⟩ := ih hs
    exact ⟨ht, _, rfl, hshown, Or.inl hstored⟩
  | @detached s now t u cell history later _ hmake ih ih' =>
    obtain ⟨ht, hshown, hpassed⟩ := ih hs
    obtain ⟨hu, _, ⟨⟩, hlater, hcell, hhidden, -⟩ := ih' ht
    have hstill : u.shown.place (u.shown.shape.slotOf now) = .passed := by
      show u.shown.place (u.window.shape.slotOf now) = _
      rw [hmake.shape, hlater]
      exact place_follow_of_passed (place_shown_eq_passed.mpr hpassed) later
    refine ⟨hu, _, rfl, ?_, Or.inr ⟨place_shown_eq_passed.mp hstill, hcell, hhidden⟩⟩
    rw [follow_append, ← hshown, ← hlater]
    exact (Window.update_of_passed hstill).symm
  | @add s a t cell history _ ih =>
    obtain ⟨ht, _, ⟨⟩, hshown, hfound⟩ := ih hs
    refine ⟨ht.bump cell a.delta, ?_⟩
    have hsum : (· + a.delta) ∘ (· + (0 : UInt64)) = (· + a.delta) := by
      funext n
      exact congrArg (· + a.delta) (UInt64.add_zero n)
    rw [Refines, hfound.shown_bump ht, hshown, Window.update_update, hsum, follow_snoc]
    rfl
  | current _ ih =>
    obtain ⟨ht, _, ⟨⟩, hshown, -⟩ := ih hs
    refine ⟨ht, ?_⟩
    rw [Refines, follow_snoc]
    exact hshown
  | nil => exact ⟨hs, rfl⟩
  | @cons s c t _ history cs u _ later _ _ ih ih' =>
    obtain ⟨ht, hshown⟩ := ih hs
    obtain ⟨hu, hlater⟩ := ih' ht
    change t.shown = follow s.shown history at hshown
    refine ⟨hu, ?_⟩
    show u.shown = follow s.shown (history ++ later)
    rw [follow_append, ← hshown]
    exact hlater

/-- The cell that a look returns is the stored one, or a detached one if its position has moved
on. -/
theorem Sound.found_current (hs : s.Sound) (now : UInt64) :
    (s.current now).1.Found now (s.current now).2 := by
  obtain ⟨history, hfind⟩ := runs_find (runs_make s.nested.length) now s (Nat.le_refl _)
  obtain ⟨-, _, ⟨⟩, -, hfound⟩ := hfind.refines hs
  exact hfound

/-! ## The window after calls -/

/-- A window without cells. -/
def empty (shape : Window.Shape) (nested : List (List Addition)) : CellWindow :=
  ⟨.empty shape, nested, #[]⟩

variable {shape : Window.Shape}

theorem ring_empty {nested : List (List Addition)} {i : Nat}
    (hi : i < (empty shape nested).window.shape.capacity) :
    (empty shape nested).window.ring[i] = none :=
  Vector.getElem_replicate hi

theorem sound_empty (shape : Window.Shape) (nested : List (List Addition)) :
    (empty shape nested).Sound where
  lt_size hi _ h := by
    rw [ring_empty hi] at h
    cases h
  eq_of_value hi _ _ _ h := by
    rw [ring_empty hi] at h
    cases h

theorem shown_empty (shape : Window.Shape) (nested : List (List Addition)) :
    (empty shape nested).shown = .empty shape := by
  simp [shown, empty, Window.map, Window.empty]

theorem shown_performAll {nested : List (List Addition)} {calls history : List Call}
    {found : Option Nat}
    (h : Runs (.calls calls) (empty shape nested) t found history) :
    t.shown = .after shape 0 (history.map Call.write) := by
  obtain ⟨-, hshown⟩ := h.refines (sound_empty shape nested)
  rw [Refines, shown_empty] at hshown
  rw [hshown, follow, Window.after, List.foldl_map]
  rfl

/-- The count of a slot that has seen all additions to it. -/
theorem valueAt_eq_sum (shape : Window.Shape) (calls : List Call) (slot : UInt64) :
    Window.valueAt shape 0 (calls.map Call.write) slot =
      ((calls.filter fun c => shape.slotOf c.now = slot).map Call.delta).sum := by
  have hfold (n : UInt64) (calls : List Call) :
      calls.foldl (fun n c => n + c.delta) n = n + (calls.map Call.delta).sum := by
    induction calls generalizing n with
    | nil => exact (UInt64.add_zero n).symm
    | cons c calls ih => rw [List.foldl_cons, ih, List.map_cons, List.sum_cons, UInt64.add_assoc]
  have hsum := hfold 0 (calls.filter fun c => shape.slotOf c.now = slot)
  rw [UInt64.zero_add] at hsum
  rw [Window.valueAt, List.filter_map, List.foldl_map]
  exact hsum

/-- **Additions nested in the making of cells are additions made before.** Whatever additions the
making of each cell brings about, all calls return. Afterwards the window shows, at every position,
the slot and the count that a window with plain cells shows after all these calls one after another:
those that were asked for, and the nested additions used up, each of them before the call that it
was nested in. A slot is stored if it was called for and not overtaken, and then it has the sum of
everything added to it. -/
theorem performAll_shown (shape : Window.Shape) (nested : List (List Addition))
    (calls : List Call) :
    ∃ found history used,
      Runs (.calls calls) (empty shape nested) ((empty shape nested).performAll calls)
        found history ∧
        nested = used ++ ((empty shape nested).performAll calls).nested ∧
        history.Perm (calls ++ used.flatten.map .add) ∧
        ((empty shape nested).performAll calls).shown =
          ((empty shape []).performAll history).shown ∧
        ∀ slot, ((empty shape nested).performAll calls).shown.stored? slot =
          if (∃ c ∈ history, shape.slotOf c.now = slot) ∧
            ∀ c ∈ history, ¬ shape.Overtakes (shape.slotOf c.now) slot
          then some ((history.filter fun c => shape.slotOf c.now = slot).map Call.delta).sum
            else none := by
  obtain ⟨found, history, hruns⟩ := runs_performAll calls (empty shape nested)
  obtain ⟨used, hused, hperm⟩ := hruns.account
  refine ⟨found, history, used, hruns, hused, hperm, ?_, fun slot => ?_⟩
  · obtain ⟨found', history', hplain⟩ := runs_performAll history (empty shape [])
    obtain ⟨rfl, -⟩ := hplain.quiet rfl
    exact (shown_performAll hruns).trans (shown_performAll hplain).symm
  · have hcalled : (∃ x ∈ history.map Call.write, shape.slotOf x.now = slot) ↔
        ∃ c ∈ history, shape.slotOf c.now = slot := by
      simp [Call.write]
    rw [shown_performAll hruns, Window.stored?_after, valueAt_eq_sum]
    simp only [hcalled, List.forall_mem_map]
    rfl

/-- The cell for slot zero is made with an addition to slot one, which is at the same position: the
cell is dropped, and what was to be added to it is lost. -/
example :
    let s := (empty ⟨1, 10, 0, by decide, by decide⟩ [[⟨10, 5⟩]]).performAll
      [.add ⟨0, 3⟩, .add ⟨10, 1⟩]
    s.shown.stored? 0 = none ∧ s.shown.stored? 1 = some 6 := by
  decide +kernel

end CellWindow

end Admission
