import Admission.Error
import Admission.Time

/-!
# The shape of a rolling window

A rolling window divides time into slots of one bucket width, counted from its start. It keeps its
buckets on a ring whose size is a power of two, so slots that lie a whole number of rings apart
share a position.

## Main definitions

* `WindowConfig`: the settings of a window, and which of them are valid
* `Window.Shape`: number and width of the buckets, and the start of slot zero
* `Shape.slotOf`, `Shape.position`: the slot of a timestamp, and the place of a slot on the ring
* `Shape.bucketsFor`, `Shape.slotsEnding`: how many buckets cover a span, and the slots they are for

## Main results

* `Shape.slotOf_le_slotOf`: later timestamps have later slots
-/

namespace Admission

/-- The settings of a rolling window. -/
structure WindowConfig where
  /-- The number of buckets that are looked back over. -/
  bucketCount : UInt64 := 60
  /-- The width of one bucket in milliseconds. -/
  bucketWidthMillis : UInt64 := 1000
deriving DecidableEq, Repr

namespace WindowConfig

/-- The width of one bucket. -/
def bucketWidth (c : WindowConfig) : Duration := .ofMillis c.bucketWidthMillis

/-- The time that the whole window covers, if it fits the timeline. -/
def span (c : WindowConfig) : Except Error Duration :=
  let nanos := c.bucketWidthMillis.toNat * 1000000 * c.bucketCount.toNat
  if nanos < UInt64.size then .ok ⟨nanos⟩
  else .error (.invalidConfig (.spanTooLarge c.bucketCount c.bucketWidthMillis))

/-- Checks the settings: there are buckets, they have a width, and their span fits. -/
def validate (c : WindowConfig) : Except Error Unit := do
  require (c.bucketCount ≠ 0) .noBuckets
  require (c.bucketWidthMillis ≠ 0) .zeroBucketWidthMillis
  let _ ← c.span

end WindowConfig

namespace Window

/-- Number and width of the buckets of a window, and the start of its slot zero. -/
structure Shape where
  /-- The number of buckets that are looked back over. -/
  bucketCount : UInt64
  /-- The width of one bucket in nanoseconds. -/
  width : UInt64
  start : UInt64
  bucketCount_ne_zero : bucketCount ≠ 0
  width_ne_zero : width ≠ 0
deriving DecidableEq, Repr

namespace Shape

/-- A shape with the given measures, which must not be zero. -/
def make (bucketCount : UInt64) (width : Duration) (start : UInt64) : Except Error Shape :=
  if hb : bucketCount = 0 then .error (.invalidConfig .noBuckets)
  else if hw : width.toWord = 0 then .error (.invalidConfig .zeroBucketWidth)
  else .ok
    { bucketCount, width := width.toWord, start, bucketCount_ne_zero := hb, width_ne_zero := hw }

/-- A shape with validated settings. -/
def ofConfig (c : WindowConfig) (start : UInt64) : Except Error Shape := do
  c.validate
  make c.bucketCount c.bucketWidth start

/-- The number of positions on the ring. -/
def capacity (s : Shape) : Nat := ceilPow2 s.bucketCount.toNat

theorem capacity_pos (s : Shape) : 0 < s.capacity := ceilPow2_pos _

/-- The slot that a timestamp falls into; timestamps before the start fall into slot zero. -/
def slotOf (s : Shape) (now : UInt64) : UInt64 := subSat now s.start / s.width

/-- The position of a slot on the ring. -/
def position (s : Shape) (slot : UInt64) : Fin s.capacity :=
  ⟨slot.toNat % s.capacity, Nat.mod_lt _ s.capacity_pos⟩

/-- The first timestamp of a slot. -/
def slotStart (s : Shape) (slot : UInt64) : UInt64 := s.start + slot * s.width

/-- The first timestamp after a slot. -/
def slotStop (s : Shape) (slot : UInt64) : UInt64 := s.slotStart slot + s.width

/-- The number of buckets that cover a span: rounded up, at least one and at most all. -/
def bucketsFor (s : Shape) (span : Duration) : UInt64 :=
  let span := span.toWord
  let n := if span % s.width = 0 then span / s.width else span / s.width + 1
  if n = 0 then 1 else if s.bucketCount < n then s.bucketCount else n

/-- The last `n` slots up to `last`, oldest first; there are none before slot zero. -/
def slotsEnding (last n : UInt64) : List UInt64 :=
  let first := subSat last (n - 1)
  (List.range ((last - first).toNat + 1)).map fun i => first + UInt64.ofNat i

theorem slotOf_toNat (s : Shape) (now : UInt64) :
    (s.slotOf now).toNat = (now.toNat - s.start.toNat) / s.width.toNat := by
  rw [slotOf, UInt64.toNat_div, subSat_toNat]

theorem slotOf_le_slotOf (s : Shape) {t now : UInt64} (h : t ≤ now) :
    s.slotOf t ≤ s.slotOf now := by
  rw [UInt64.le_iff_toNat_le] at h ⊢
  rw [slotOf_toNat, slotOf_toNat]
  exact Nat.div_le_div_right (by omega)

end Shape

end Window

end Admission
