import Admission.Proofs.Window.History
import Mathlib.Data.List.TakeWhile

/-!
# Walks over a window that changes

A walk visits the trailing slots of a timestamp, oldest first, and looks at each of them when it
gets there. The slots are settled when the walk is made; what they hold is read from the window as
it is at each step, whatever was written to it meanwhile. They lie closer together than the ring is
long, so no two of them share a position.

## Main definitions

* `WalkOp`, `Window.seen`: what is done around a walk, and the windows that its steps find
* `Window.walk`, `Shape.trail`: a walk over a span or over all buckets, and how many slots it is for
* `Look`, `Cursor.looks`: what a step finds and what it passes over
* `Walker`: a walk by its next slot and its last one

## Main results

* `Walker.reads_eq`: a walk by its next slot and its last one does the same, and each of its steps
  ends
* `Cursor.flatMap_visited`: the slots are visited one after another
* `Shape.slotOf_eq_iff`: the bounds of a slot
* `walk_looks`: all that a walk finds
-/

namespace Admission.Window

variable {α : Type}

/-- What is done around a walk: a write to the slot of a timestamp, or the next step of the walk. -/
inductive WalkOp (α : Type) where
  | write (now : UInt64) (fresh : α) (change : α → α)
  | next

/-- The windows that the steps of a walk find, when it begins at a window. -/
def seen (w : Window α) : List (WalkOp α) → List (Window α)
  | [] => []
  | .write now fresh change :: ops => (w.update now fresh change).seen ops
  | .next :: ops => w :: w.seen ops

/-- How many slots a walk is for: those that cover a span, or those of all buckets. -/
def Shape.trail (s : Shape) : Option Duration → UInt64
  | some span => s.bucketsFor span
  | none => s.bucketCount

/-- A walk over the buckets that cover the span up to `now`, or over all buckets. -/
def walk (w : Window α) (now : UInt64) : Option Duration → Cursor
  | some span => w.cursorOver now span
  | none => w.cursor now

/-- What a step of a walk finds. -/
structure Look (α : Type) where
  /-- The window as it is at this time. -/
  window : Window α
  /-- The slots that are passed over. -/
  passed : List UInt64
  found : Option (Interval α)

/-- The slots that a step visits. -/
def Look.visited (l : Look α) : List UInt64 := l.passed ++ (l.found.map (·.slot)).toList

/-- The steps of a walk that find the given windows. -/
def Cursor.looks : Cursor → List (Window α) → List (Look α)
  | _, [] => []
  | c, w :: ws =>
    ⟨w, c.remaining.takeWhile fun slot => (w.interval? slot).isNone, (c.next w).1⟩ ::
      (c.next w).2.looks ws

/-! ## One step -/

section Step

variable {w : Window α} {slot : UInt64} {rest : List UInt64} {i : Interval α} {v : α}

theorem stored?_eq_some_iff : w.stored? slot = some v ↔ w.bucketAt slot = some ⟨slot, v⟩ := by
  unfold stored? place
  cases w.bucketAt slot with
  | none => simp
  | some b =>
    obtain ⟨s, value⟩ := b
    by_cases hs : s = slot
    · simp [hs]
    · by_cases hlt : slot < s <;> simp [hs, hlt]

/-- An interval has the bounds of its slot, and the accumulator that is stored for it. -/
theorem interval?_eq_some_iff : w.interval? slot = some i ↔
    w.bucketAt slot = some ⟨slot, i.value⟩ ∧ i.slot = slot ∧ i.start = w.shape.slotStart slot ∧
      i.stop = w.shape.slotStop slot := by
  rw [interval?, Option.map_eq_some_iff]
  constructor
  · rintro ⟨v, hv, rfl⟩
    exact ⟨stored?_eq_some_iff.mp hv, rfl, rfl, rfl⟩
  · rintro ⟨hv, rfl, hstart, hstop⟩
    exact ⟨i.value, stored?_eq_some_iff.mpr hv, by rw [← hstart, ← hstop]⟩

theorem Cursor.next_of_some (h : w.interval? slot = some i) :
    Cursor.next ⟨slot :: rest⟩ w = (some i, ⟨rest⟩) := by
  rw [Cursor.next, Cursor.next.go, h]

theorem Cursor.next_of_none (h : w.interval? slot = none) :
    Cursor.next ⟨slot :: rest⟩ w = Cursor.next ⟨rest⟩ w := by
  rw [Cursor.next, Cursor.next.go, h]
  rfl

/-- A step passes over slots that hold nothing, up to the first one that holds an accumulator, and
leaves the others. If there is none it leaves nothing. -/
theorem Cursor.next_spec (slots : List UInt64) (w : Window α) :
    slots = slots.takeWhile (fun slot => (w.interval? slot).isNone) ++
      (((Cursor.next ⟨slots⟩ w).1.map (·.slot)).toList ++ (Cursor.next ⟨slots⟩ w).2.remaining) ∧
    (∀ i ∈ (Cursor.next ⟨slots⟩ w).1, w.interval? i.slot = some i) ∧
    ((Cursor.next ⟨slots⟩ w).1 = none → (Cursor.next ⟨slots⟩ w).2.remaining = []) := by
  induction slots with
  | nil =>
    refine ⟨rfl, ?_, fun _ => rfl⟩
    rintro i ⟨⟩
  | cons slot rest ih =>
    cases h : w.interval? slot with
    | none =>
      rw [Cursor.next_of_none h, List.takeWhile_cons_of_pos (by rw [h]; rfl),
        List.cons_append, ← ih.1]
      exact ⟨rfl, ih.2⟩
    | some i =>
      have hslot := (interval?_eq_some_iff.mp h).2.1
      rw [Cursor.next_of_some h, List.takeWhile_cons_of_neg (by rw [h]; exact Bool.false_ne_true)]
      refine ⟨?_, ?_, fun hnone => nomatch hnone⟩
      · rw [← hslot]
        rfl
      · rintro _ ⟨⟩
        rw [hslot, h]

end Step

/-! ## All steps -/

section Steps

variable {c : Cursor} {ws : List (Window α)} {l : Look α}

/-- **The slots of a walk are visited one after another**, each of them once. -/
theorem Cursor.flatMap_visited (c : Cursor) (ws : List (Window α)) :
    (c.looks ws).flatMap Look.visited <+: c.remaining := by
  induction ws generalizing c with
  | nil => exact List.nil_prefix
  | cons w ws ih =>
    obtain ⟨rest, hrest⟩ := ih (c.next w).2
    refine ⟨rest, ?_⟩
    rw [Cursor.looks, List.flatMap_cons, List.append_assoc, hrest, Look.visited, List.append_assoc]
    exact (Cursor.next_spec c.remaining w).1.symm

/-- What a step finds is stored at that time, and what it passes over is not. -/
theorem Cursor.look_spec (h : l ∈ c.looks ws) :
    l.window ∈ ws ∧ (∀ slot ∈ l.passed, l.window.stored? slot = none) ∧
      ∀ i ∈ l.found, l.window.interval? i.slot = some i := by
  induction ws generalizing c with
  | nil => cases h
  | cons w ws ih =>
    rcases List.mem_cons.mp h with rfl | h
    · refine ⟨List.mem_cons_self, fun slot hslot => ?_, (Cursor.next_spec c.remaining w).2.1⟩
      have hnone := List.mem_takeWhile_imp hslot
      rwa [Option.isNone_iff_eq_none, interval?, Option.map_eq_none_iff] at hnone
    · exact (ih h).imp_left (List.mem_cons_of_mem w)

/-- A walk without slots finds nothing, whatever the windows. -/
theorem Cursor.found_of_nil (h : l ∈ Cursor.looks ⟨[]⟩ ws) : l.found = none := by
  induction ws with
  | nil => cases h
  | cons w ws ih =>
    rcases List.mem_cons.mp h with rfl | h
    · rfl
    · exact ih h

/-- After a step that finds nothing no step finds anything. -/
theorem Cursor.looks_pairwise (c : Cursor) (ws : List (Window α)) :
    (c.looks ws).Pairwise fun l l' => l.found = none → l'.found = none := by
  induction ws generalizing c with
  | nil => exact .nil
  | cons w ws ih =>
    refine List.pairwise_cons.mpr ⟨fun l' hl' hnone => ?_, ih _⟩
    have hover : (c.next w).2 = ⟨[]⟩ :=
      congrArg Cursor.mk ((Cursor.next_spec c.remaining w).2.2 hnone)
    rw [hover] at hl'
    exact Cursor.found_of_nil hl'

theorem sublist_visited (looks : List (Look α)) :
    ((looks.filterMap (·.found)).map (·.slot)).Sublist (looks.flatMap Look.visited) := by
  induction looks with
  | nil => exact .slnil
  | cons l looks ih =>
    rw [List.flatMap_cons, Look.visited, List.append_assoc]
    refine List.Sublist.trans ?_ (List.sublist_append_right _ _)
    cases hl : l.found with
    | none =>
      rw [List.filterMap_cons_none hl]
      exact ih
    | some i =>
      rw [List.filterMap_cons_some hl]
      exact ih.cons_cons i.slot

theorem shape_of_mem_seen {w v : Window α} {ops : List (WalkOp α)} (h : v ∈ w.seen ops) :
    v.shape = w.shape := by
  induction ops generalizing w with
  | nil => cases h
  | cons op ops ih =>
    cases op with
    | write now fresh change => exact (ih h).trans shape_update
    | next =>
      rcases List.mem_cons.mp h with rfl | h
      · rfl
      · exact ih h

end Steps

/-! ## Slots and their bounds -/

namespace Shape

variable {s : Shape} {now slot t : UInt64}

theorem pairwise_slotsEnding (last n : UInt64) : (slotsEnding last n).Pairwise (· < ·) := by
  have hlast := last.toNat_lt
  have hfirst := subSat_toNat last (n - 1)
  have hlen : (last - subSat last (n - 1)).toNat = last.toNat - (subSat last (n - 1)).toNat :=
    UInt64.toNat_sub_of_le _ _ (UInt64.le_iff_toNat_le.mpr (by omega))
  refine List.pairwise_map.mpr (List.pairwise_lt_range.imp_of_mem fun {i j} hi hj hij => ?_)
  rw [List.mem_range] at hi hj
  rw [UInt64.lt_iff_toNat_lt, UInt64.toNat_add, UInt64.toNat_add, UInt64.toNat_ofNat',
    UInt64.toNat_ofNat']
  omega

/-- Slots that lie closer together than the ring is long do not share a position. -/
theorem position_ne_of_lt {a b : UInt64} (hlt : a < b) (hnear : b.toNat < a.toNat + s.capacity) :
    s.position a ≠ s.position b := by
  rw [UInt64.lt_iff_toNat_lt] at hlt
  intro h
  have hdvd : s.capacity ∣ b.toNat - a.toNat :=
    (Nat.modEq_iff_dvd' hlt.le).mp (position_eq_iff.mp h)
  have := Nat.le_of_dvd (by omega) hdvd
  omega

theorem trail_ne_zero (s : Shape) (span : Option Duration) : s.trail span ≠ 0 := by
  cases span with
  | none => exact s.bucketCount_ne_zero
  | some span => exact s.bucketsFor_ne_zero span

theorem trail_le (s : Shape) (span : Option Duration) : s.trail span ≤ s.bucketCount := by
  cases span with
  | none => exact UInt64.le_refl _
  | some span =>
    rw [trail, UInt64.le_iff_toNat_le, bucketsFor_toNat]
    exact Nat.min_le_right _ _

/-- If the timeline goes on for a bucket after `now`, no bound of a slot up to that of `now` leaves
it. -/
theorem bounds_toNat (hfits : max now.toNat s.start.toNat + s.width.toNat < 2 ^ 64)
    (hslot : slot ≤ s.slotOf now) :
    (s.slotStart slot).toNat = s.start.toNat + slot.toNat * s.width.toNat ∧
      (s.slotStop slot).toNat = s.start.toNat + slot.toNat * s.width.toNat + s.width.toNat ∧
      s.start.toNat + slot.toNat * s.width.toNat + s.width.toNat < 2 ^ 64 := by
  rw [UInt64.le_iff_toNat_le, slotOf_toNat] at hslot
  have hmul : slot.toNat * s.width.toNat ≤ now.toNat - s.start.toNat :=
    (Nat.mul_le_mul_right _ hslot).trans (Nat.div_mul_le_self _ _)
  have hsum : s.start.toNat + slot.toNat * s.width.toNat + s.width.toNat < 2 ^ 64 := by omega
  have hstart : (s.slotStart slot).toNat = s.start.toNat + slot.toNat * s.width.toNat := by
    rw [slotStart, UInt64.toNat_add, UInt64.toNat_mul]
    rw [Nat.mod_eq_of_lt (a := slot.toNat * s.width.toNat) (by omega), Nat.mod_eq_of_lt (by omega)]
  refine ⟨hstart, ?_, hsum⟩
  rw [slotStop, UInt64.toNat_add, hstart, Nat.mod_eq_of_lt hsum]

/-- **The timestamps from the start on that fall into a slot are those between its bounds.** -/
theorem slotOf_eq_iff (hfits : max now.toNat s.start.toNat + s.width.toNat < 2 ^ 64)
    (hslot : slot ≤ s.slotOf now) :
    s.start ≤ t ∧ s.slotOf t = slot ↔ s.slotStart slot ≤ t ∧ t < s.slotStop slot := by
  obtain ⟨hstart, hstop, -⟩ := bounds_toNat hfits hslot
  rw [← UInt64.toNat_inj, slotOf_toNat, UInt64.le_iff_toNat_le, UInt64.le_iff_toNat_le,
    UInt64.lt_iff_toNat_lt, hstart, hstop]
  rw [Nat.div_eq_iff s.width_pos]
  have hpos := s.width_pos
  generalize slot.toNat * s.width.toNat = offset
  omega

end Shape

/-! ## Walks by their next slot and their last one -/

/-- A walk that keeps only the slot to be visited next and the last one. -/
structure Walker where
  next : UInt64
  last : UInt64
  done : Bool := false
deriving DecidableEq, Repr

namespace Walker

/-- A walk over a number of slots up to a last one; there are none before slot zero. -/
def start (last n : UInt64) : Walker := { next := subSat last (n - 1), last }

/-- The slots still to be visited, oldest first. -/
def slots (k : Walker) : List UInt64 :=
  if k.done then [] else (List.range ((k.last - k.next).toNat + 1)).map fun i =>
    k.next + UInt64.ofNat i

/-- The walk beyond the next slot. It does not count past the last one. -/
def pass (k : Walker) : Walker := if k.last ≤ k.next then { k with done := true } else
    { k with next := k.next + 1 }

/-- How many slots are still to be visited at most. -/
def todo (k : Walker) : Nat := if k.done then 0 else k.last.toNat - k.next.toNat + 1

theorem next_add_one_toNat {k : Walker} (h : ¬ k.last ≤ k.next) :
    (k.next + 1).toNat = k.next.toNat + 1 := by
  have hlast := k.last.toNat_lt
  rw [UInt64.le_iff_toNat_le] at h
  rw [UInt64.toNat_add]
  exact Nat.mod_eq_of_lt (by simp only [UInt64.reduceToNat]; omega)

theorem todo_pass_lt {k : Walker} (h : k.done = false) : k.pass.todo < k.todo := by
  unfold pass
  by_cases hlast : k.last ≤ k.next
  · rw [if_pos hlast]
    simp [todo, h]
  · rw [if_neg hlast]
    have hnext := next_add_one_toNat hlast
    rw [UInt64.le_iff_toNat_le] at hlast
    simp only [todo, h, Bool.false_eq_true, if_false, hnext]
    omega

/-- The next interval of the walk, read from the window as it is now. Each slot that is passed over
is one less to be visited, so the search ends, also at the last slot of all. -/
def read (w : Window α) (k : Walker) : Option (Interval α) × Walker :=
  if k.done then (none, k)
  else
    match w.interval? k.next with
    | some i => (some i, k.pass)
    | none => k.pass.read w
termination_by k.todo
decreasing_by exact todo_pass_lt (Bool.not_eq_true _ ▸ ‹_›)

/-- The steps of the walk that find the given windows. -/
def reads : Walker → List (Window α) → List (Option (Interval α))
  | _, [] => []
  | k, w :: ws => (k.read w).1 :: (k.read w).2.reads ws

theorem slots_of_done {k : Walker} (h : k.done = true) : k.slots = [] := if_pos h

theorem slots_eq_cons {k : Walker} (h : k.done = false) (hle : k.next ≤ k.last) :
    k.slots = k.next :: k.pass.slots ∧ k.pass.next ≤ k.pass.last := by
  unfold pass
  have hlen := UInt64.toNat_sub_of_le _ _ hle
  by_cases hlast : k.last ≤ k.next
  · have heq : k.next = k.last := UInt64.le_antisymm hle hlast
    rw [if_pos hlast]
    refine ⟨?_, hle⟩
    simp [slots, h, heq]
  · rw [if_neg hlast]
    have hnext := next_add_one_toNat hlast
    rw [UInt64.le_iff_toNat_le] at hlast hle
    have hle' : k.next + 1 ≤ k.last := UInt64.le_iff_toNat_le.mpr (by omega)
    refine ⟨?_, hle'⟩
    have hlen' := UInt64.toNat_sub_of_le _ _ hle'
    have hrange : (k.last - k.next).toNat = (k.last - (k.next + 1)).toNat + 1 := by omega
    simp only [slots, h, Bool.false_eq_true, if_false, hrange]
    rw [List.range_succ_eq_map, List.map_cons, List.map_map]
    refine congrArg₂ List.cons (UInt64.add_zero _) (List.map_congr_left fun i _ => ?_)
    show k.next + UInt64.ofNat (i + 1) = k.next + 1 + UInt64.ofNat i
    rw [UInt64.ofNat_add, UInt64.add_comm (UInt64.ofNat i), UInt64.add_assoc]
    rfl

/-- A step by words is a step by slots. -/
theorem read_eq (w : Window α) {k : Walker} (hle : k.next ≤ k.last) :
    Cursor.next ⟨k.slots⟩ w = ((k.read w).1, ⟨(k.read w).2.slots⟩) ∧
      (k.read w).2.next ≤ (k.read w).2.last := by
  induction k using read.induct w with
  | case1 k hdone =>
    rw [read, if_pos hdone]
    exact ⟨by rw [slots_of_done hdone]; rfl, hle⟩
  | case2 k hdone i hi =>
    obtain ⟨hslots, hpass⟩ := slots_eq_cons (Bool.not_eq_true _ ▸ hdone) hle
    rw [read, if_neg hdone, hi, hslots, Cursor.next_of_some hi]
    exact ⟨rfl, hpass⟩
  | case3 k hdone hnone ih =>
    obtain ⟨hslots, hpass⟩ := slots_eq_cons (Bool.not_eq_true _ ▸ hdone) hle
    rw [read, if_neg hdone, hnone, hslots, Cursor.next_of_none hnone]
    exact ih hpass

/-- **A walk by words finds what a walk by slots finds**, whatever the windows. -/
theorem reads_eq (ws : List (Window α)) {k : Walker} (hle : k.next ≤ k.last) :
    k.reads ws = (Cursor.looks ⟨k.slots⟩ ws).map (·.found) := by
  induction ws generalizing k with
  | nil => rfl
  | cons w ws ih =>
    obtain ⟨hnext, hle⟩ := read_eq w hle
    rw [reads, Cursor.looks, List.map_cons, hnext, ih hle]

theorem reads_start (last n : UInt64) (ws : List (Window α)) :
    (start last n).reads ws = (Cursor.looks ⟨Shape.slotsEnding last n⟩ ws).map (·.found) :=
  reads_eq ws (UInt64.le_iff_toNat_le.mpr ((subSat_toNat last _).trans_le (Nat.sub_le _ _)))

end Walker

/-- **What a walk finds while the window is written to.** The slots that it visits are the trailing
ones of the time at which it was made, one after another; no two of them share a position. A slot
that it passes over holds nothing at that time, and an interval that it finds has the accumulator
that is stored for just its slot then. Once it finds nothing it has come to its end for good. It can
be carried out on words, where each step ends. The bounds of an interval are those of the timestamps
that fall into its slot, as long as the timeline goes on for one bucket. -/
theorem walk_looks (w : Window α) (now : UInt64) (span : Option Duration) (ops : List (WalkOp α)) :
    let looks := (w.walk now span).looks (w.seen ops)
    (((looks.filterMap (·.found)).map (·.slot)).Pairwise (· < ·) ∧
      looks.flatMap Look.visited <+: Shape.slotsEnding (w.shape.slotOf now) (w.shape.trail span) ∧
      (looks.flatMap Look.visited).Pairwise fun a b => w.shape.position a ≠ w.shape.position b) ∧
    (∀ slot ∈ looks.flatMap Look.visited, slot ≤ w.shape.slotOf now ∧
      (w.shape.slotOf now).toNat < slot.toNat + (w.shape.trail span).toNat ∧
      w.shape.trail span ≤ w.shape.bucketCount) ∧
    (∀ l ∈ looks, (∀ slot ∈ l.passed, l.window.stored? slot = none) ∧
      ∀ i ∈ l.found, l.window.bucketAt i.slot = some ⟨i.slot, i.value⟩) ∧
    looks.Pairwise (fun l l' => l.found = none → l'.found = none) ∧
    (Walker.start (w.shape.slotOf now) (w.shape.trail span)).reads
    (w.seen ops) = looks.map (·.found) ∧
    (max now.toNat w.shape.start.toNat + w.shape.width.toNat < 2 ^ 64 → ∀ l ∈ looks, ∀ i ∈ l.found,
      i.start.toNat = w.shape.start.toNat + i.slot.toNat * w.shape.width.toNat ∧
      i.stop.toNat = i.start.toNat + w.shape.width.toNat ∧
      ∀ t, w.shape.start ≤ t ∧ w.shape.slotOf t = i.slot ↔ i.start ≤ t ∧ t < i.stop) := by
  intro looks
  have hwalk : w.walk now span = ⟨Shape.slotsEnding (w.shape.slotOf now) (w.shape.trail span)⟩ := by
    cases span <;> rfl
  have hvisits : looks.flatMap Look.visited <+:
      Shape.slotsEnding (w.shape.slotOf now) (w.shape.trail span) := by
    have hvisited := Cursor.flatMap_visited (w.walk now span) (w.seen ops)
    rwa [show (w.walk now span).remaining = _ from congrArg Cursor.remaining hwalk] at hvisited
  have hsorted := (Shape.pairwise_slotsEnding _ _).sublist hvisits.sublist
  have hwithin := fun slot hslot =>
    (Shape.mem_slotsEnding (w.shape.trail_ne_zero span)).mp (hvisits.subset (a := slot) hslot)
  refine ⟨⟨hsorted.sublist (sublist_visited looks), hvisits, ?_⟩, fun slot hslot =>
    ⟨(hwithin slot hslot).1, (hwithin slot hslot).2, w.shape.trail_le span⟩, fun l hl => ?_,
    Cursor.looks_pairwise _ _, ?_, fun hfits l hl i hi => ?_⟩
  · refine hsorted.imp_of_mem fun {a b} ha hb hlt => Shape.position_ne_of_lt hlt ?_
    have hle := UInt64.le_iff_toNat_le.mp (hwithin b hb).1
    have hcount := UInt64.le_iff_toNat_le.mp (w.shape.trail_le span)
    have hcapacity : w.shape.bucketCount.toNat ≤ w.shape.capacity := le_ceilPow2 _
    have hlast := (hwithin a ha).2
    omega
  · obtain ⟨-, hpassed, hfound⟩ := Cursor.look_spec hl
    exact ⟨hpassed, fun i hi => (interval?_eq_some_iff.mp (hfound i hi)).1⟩
  · rw [Walker.reads_start, ← hwalk]
  · obtain ⟨hseen, -, hfound⟩ := Cursor.look_spec hl
    obtain ⟨-, -, hstart, hstop⟩ := interval?_eq_some_iff.mp (hfound i hi)
    have hvisited : i.slot ∈ looks.flatMap Look.visited :=
      (sublist_visited looks).subset (List.mem_map_of_mem (List.mem_filterMap.mpr ⟨l, hl, hi⟩))
    have hslot := (hwithin i.slot hvisited).1
    rw [shape_of_mem_seen hseen] at hstart hstop
    obtain ⟨hs, ht, -⟩ := Shape.bounds_toNat hfits hslot
    rw [hstart, hstop]
    exact ⟨hs, by rw [ht, hs], fun t => Shape.slotOf_eq_iff hfits hslot⟩

/-- A window over three buckets of ten nanoseconds from five on, on a ring of four, with one write
to each of the slots one, two and three. -/
def recycled : Window Nat :=
  after ⟨3, 10, 5, by decide, by decide⟩ 0 [⟨15, (· + 1)⟩, ⟨27, (· + 2)⟩, ⟨38, (· + 3)⟩]

/-- After the first step the position of slot two moves on to slot six, and the second step finds
slot three; a late write to slot two changes nothing. -/
def recycling : List (WalkOp Nat) :=
  [.next, .write 65 0 (· + 4), .next, .next, .write 28 0 (· + 5), .next]

theorem walk_looks_recycled :
    max (40 : UInt64).toNat recycled.shape.start.toNat + recycled.shape.width.toNat < 2 ^ 64 ∧
    (((recycled.walk 40 none).looks (recycled.seen recycling)).map fun l => (l.passed, l.found)) =
      [([], some ⟨1, 15, 25, 1⟩), ([2], some ⟨3, 35, 45, 3⟩), ([], none), ([], none)] ∧
    (∀ l ∈ (recycled.walk 40 none).looks (recycled.seen recycling), ∀ i ∈ l.found,
      i.start.toNat = 5 + i.slot.toNat * 10 ∧ i.stop.toNat = i.start.toNat + 10 ∧
      ∀ t, 5 ≤ t ∧ recycled.shape.slotOf t = i.slot ↔ i.start ≤ t ∧ t < i.stop) := by
  have hfits : max (40 : UInt64).toNat recycled.shape.start.toNat +
      recycled.shape.width.toNat < 2 ^ 64 := by
    decide +kernel
  obtain ⟨-, -, -, -, -, hbounds⟩ := walk_looks recycled 40 none recycling
  exact ⟨hfits, by decide +kernel, hbounds hfits⟩

end Admission.Window
