import Admission.Counts.Basic
import Admission.Window.Basic

/-!
# Rolling counts

Counts per key, kept per slot of time. Queries look back over whole buckets.

## Main definitions

* `RollingCounts K`: a window of counts
* `RollingCounts.add`: counts at a timestamp
* `RollingCounts.count`, `RollingCounts.countOver`, `RollingCounts.totalOver`: sums over trailing
  buckets
-/

namespace Admission

/-- Counts per key in a rolling window. -/
structure RollingCounts (K : Type) [MetricKey K] where
  window : Window (Counts K)

namespace RollingCounts

variable {K : Type} [MetricKey K]

/-- A window of the given shape without counts. -/
def empty (shape : Window.Shape) : RollingCounts K := ⟨Window.empty shape⟩

/-- A window with validated settings. -/
def ofConfig (c : WindowConfig) (start : UInt64) : Except Error (RollingCounts K) :=
  (Window.Shape.ofConfig c start).map empty

/-- Adds to the count of a key in the slot of `now`. -/
def add (r : RollingCounts K) (k : K) (delta now : UInt64) : RollingCounts K :=
  ⟨r.window.update now Counts.zero (·.add k delta)⟩

/-- The count of a key over the whole window. -/
def count (r : RollingCounts K) (k : K) (now : UInt64) : UInt64 :=
  ((r.window.intervals now).map (·.value.get k)).sum

/-- The count of a key over a trailing span. -/
def countOver (r : RollingCounts K) (k : K) (span : Duration) (now : UInt64) : UInt64 :=
  ((r.window.intervalsOver now span).map (·.value.get k)).sum

/-- The count of all keys over a trailing span. -/
def totalOver (r : RollingCounts K) (span : Duration) (now : UInt64) : UInt64 :=
  ((r.window.intervalsOver now span).map (·.value.total)).sum

@[simp] theorem shape_empty {shape : Window.Shape} :
    (empty shape : RollingCounts K).window.shape = shape := rfl

@[simp] theorem shape_add {r : RollingCounts K} {k : K} {delta now : UInt64} :
    (r.add k delta now).window.shape = r.window.shape := by
  simp [add]

end RollingCounts

end Admission
