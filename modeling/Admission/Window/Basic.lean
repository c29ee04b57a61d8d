import Admission.Window.Shape

/-!
# Rolling windows

A rolling window keeps one accumulator per slot of time on a ring. Each stored bucket is stamped
with its slot, so a reader who finds another stamp knows that the position holds nothing for the
slot it wants, and a bucket is replaced, never cleared, when its position moves on to a later slot.

## Main definitions

* `Window α`: a window over accumulators of type `α`
* `Window.place`: what a slot finds at its position: its own accumulator, a vacant position, or one
  that has moved on to a later slot
* `Window.update`: a write; to a slot whose position has moved on it is lost
* `Window.Cursor`: a walk over the trailing slots, oldest first, that reads the window as it is at
  each step
* `Window.intervals`, `Window.intervalsOver`: the buckets of such a walk over an unchanging window

## Main results

* `bucketAt_put_self`, `bucketAt_put_of_ne`: a write shows at the position of its own slot only
-/

namespace Admission

/-- An accumulator with the slot it belongs to. -/
structure Bucket (α : Type) where
  slot : UInt64
  value : α
deriving DecidableEq, Repr

/-- A ring of accumulators, one for each recent slot. -/
structure Window (α : Type) where
  shape : Window.Shape
  ring : Vector (Option (Bucket α)) shape.capacity

namespace Window

variable {α : Type}

/-- A window that has stored nothing yet. -/
def empty (shape : Shape) : Window α where
  shape := shape
  ring := Vector.replicate _ none

/-- The bucket at the position of a slot, whichever slot it is for. -/
def bucketAt (w : Window α) (slot : UInt64) : Option (Bucket α) :=
  w.ring[(w.shape.position slot).val]

/-- What a slot finds at its position. -/
inductive Place (α : Type) where
  | held (value : α)
  /-- Nothing, or an accumulator of an earlier slot. -/
  | vacant
  | passed

/-- What a slot finds at its position. -/
def place (w : Window α) (slot : UInt64) : Place α :=
  match w.bucketAt slot with
  | none => .vacant
  | some b => if b.slot = slot then .held b.value else if slot < b.slot then .passed else .vacant

/-- Stores an accumulator for a slot, in place of whatever its position held. -/
def put (w : Window α) (slot : UInt64) (value : α) : Window α :=
  { w with ring :=
    w.ring.set (w.shape.position slot) (some ⟨slot, value⟩) (w.shape.position slot).isLt }

/-- The accumulator stored for exactly this slot. -/
def stored? (w : Window α) (slot : UInt64) : Option α :=
  match w.place slot with
  | .held v => some v
  | _ => none

/-- Changes the accumulator of the slot of `now`, starting from `fresh` if the slot has none yet. A
slot whose position has moved on to a later slot has no accumulator, and the change is lost. -/
def update (w : Window α) (now : UInt64) (fresh : α) (f : α → α) : Window α :=
  let slot := w.shape.slotOf now
  match w.place slot with
  | .held v => w.put slot (f v)
  | .vacant => w.put slot (f fresh)
  | .passed => w

/-! ## Reading -/

/-- A bucket with the bounds of its slot. -/
structure Interval (α : Type) where
  slot : UInt64
  start : UInt64
  stop : UInt64
  value : α
deriving DecidableEq, Repr

/-- The interval of a slot, if the window holds an accumulator for it. -/
def interval? (w : Window α) (slot : UInt64) : Option (Interval α) :=
  (w.stored? slot).map fun value =>
    { slot, start := w.shape.slotStart slot, stop := w.shape.slotStop slot, value }

/-- A walk over slots of a window that has not come to its end. -/
structure Cursor where
  /-- The slots still to be visited, oldest first. -/
  remaining : List UInt64
deriving DecidableEq, Repr

/-- A walk over all buckets up to the slot of `now`. -/
def cursor (w : Window α) (now : UInt64) : Cursor :=
  ⟨Shape.slotsEnding (w.shape.slotOf now) w.shape.bucketCount⟩

/-- A walk over the buckets that cover the span up to `now`. -/
def cursorOver (w : Window α) (now : UInt64) (span : Duration) : Cursor :=
  ⟨Shape.slotsEnding (w.shape.slotOf now) (w.shape.bucketsFor span)⟩

/-- The next interval of a walk, read from the window as it is now. Slots without an accumulator
are passed over. -/
def Cursor.next (c : Cursor) (w : Window α) : Option (Interval α) × Cursor :=
  go c.remaining
where
  go : List UInt64 → Option (Interval α) × Cursor
    | [] => (none, ⟨[]⟩)
    | slot :: rest =>
      match w.interval? slot with
      | some i => (some i, ⟨rest⟩)
      | none => go rest

/-- All intervals that a walk visits while the window does not change. -/
def Cursor.toList (c : Cursor) (w : Window α) : List (Interval α) :=
  c.remaining.filterMap w.interval?

/-- The buckets up to the slot of `now`, oldest first. -/
def intervals (w : Window α) (now : UInt64) : List (Interval α) :=
  (w.cursor now).toList w

/-- The buckets that cover the span up to `now`, oldest first. -/
def intervalsOver (w : Window α) (now : UInt64) (span : Duration) : List (Interval α) :=
  (w.cursorOver now span).toList w

/-! ## Small facts -/

variable {w : Window α} {slot other : UInt64} {v : α}

@[simp] theorem shape_put : (w.put slot v).shape = w.shape := rfl

@[simp] theorem shape_update {now : UInt64} {f : α → α} : (w.update now v f).shape = w.shape := by
  simp only [update]
  split <;> rfl

@[simp] theorem bucketAt_put_self : (w.put slot v).bucketAt slot = some ⟨slot, v⟩ := by
  simp [bucketAt, put]

theorem bucketAt_put_of_ne (h : w.shape.position slot ≠ w.shape.position other) :
    (w.put slot v).bucketAt other = w.bucketAt other := by
  have h' : (w.shape.position slot).val ≠ (w.shape.position other).val := fun e => h (Fin.ext e)
  simp [bucketAt, put, h']

end Window

end Admission
