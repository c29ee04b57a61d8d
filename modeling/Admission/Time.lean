import Admission.Word

/-!
# Durations and clocks

A timestamp is a word of nanoseconds since the origin of its clock. A duration is any number of
nanoseconds; where a timeline needs it as a word, it is cut off at the largest word.

## Main definitions

* `Duration`: a span of time, with its seconds, its rest and its word
* `Clock`: a clock that is moved by hand
-/

namespace Admission

/-- A span of time in nanoseconds. -/
structure Duration where
  /-- The length in nanoseconds. -/
  nanos : Nat
deriving DecidableEq, Repr

namespace Duration

/-- A span of `n` nanoseconds. -/
def ofNanos (n : UInt64) : Duration := ⟨n.toNat⟩

/-- A span of `n` milliseconds. -/
def ofMillis (n : UInt64) : Duration := ⟨n.toNat * 1000000⟩

/-- A span of whole seconds and a number of nanoseconds. -/
def ofSecs (secs nanos : UInt64) : Duration := ⟨secs.toNat * 1000000000 + nanos.toNat⟩

/-- The whole seconds. -/
def secs (d : Duration) : Nat := d.nanos / 1000000000

/-- The nanoseconds beyond the whole seconds. -/
def subsecNanos (d : Duration) : Nat := d.nanos % 1000000000

/-- The whole milliseconds. -/
def millis (d : Duration) : Nat := d.nanos / 1000000

/-- The span as a word of nanoseconds; a longer one counts as the largest word. -/
def toWord (d : Duration) : UInt64 := ofNatSat d.nanos

/-- The span as a word of nanoseconds, modulo the range of words. -/
def wrapped (d : Duration) : UInt64 := UInt64.ofNat d.nanos

end Duration

/-- A clock that is moved by hand. -/
structure Clock where
  /-- The current reading in nanoseconds. -/
  now : UInt64
deriving DecidableEq, Repr

namespace Clock

/-- Moves the clock forward, around the end of its range if need be. -/
def advance (c : Clock) (d : Duration) : Clock := ⟨c.now + d.wrapped⟩

/-- Moves the clock to a reading, forward or backward. -/
def set (_ : Clock) (now : UInt64) : Clock := ⟨now⟩

@[simp] theorem now_set (c : Clock) (now : UInt64) : (c.set now).now = now := rfl

@[simp] theorem now_advance (c : Clock) (d : Duration) :
    (c.advance d).now = c.now + d.wrapped := rfl

end Clock

end Admission
