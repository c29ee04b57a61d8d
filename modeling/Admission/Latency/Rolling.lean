import Admission.Latency.Basic
import Admission.Window.Basic

/-!
# Rolling latencies

Latencies per key, kept per slot of time. Queries merge the buckets they look back over.

## Main definitions

* `RollingLatency K`: a window of latency accumulators
* `RollingLatency.record`: counts a latency at a timestamp
* `RollingLatency.snapshot`, `RollingLatency.snapshotOver`, `RollingLatency.snapshotAllOver`: the
  distributions over trailing buckets
-/

namespace Admission

open MetricKey (variants)

/-- Latencies per key in a rolling window. -/
structure RollingLatency (K : Type) [MetricKey K] where
  highest : UInt64
  window : Window (LatencyAccumulator K)

namespace RollingLatency

variable {K : Type} [MetricKey K]

/-- A window without latencies. -/
def empty (shape : Window.Shape) (highest : UInt64) : RollingLatency K :=
  { highest, window := .empty shape }

/-- The shape of a window for latencies up to a bound of at least two. -/
def makeShape (bucketCount : UInt64) (width : Duration) (start highest : UInt64) :
    Except Error Window.Shape := do
  require (2 ≤ highest) .latencyBound
  Window.Shape.make bucketCount width start

/-- A window for latencies up to a bound of at least two. -/
def make (bucketCount : UInt64) (width : Duration) (start highest : UInt64) :
    Except Error (RollingLatency K) :=
  (makeShape bucketCount width start highest).map fun shape => empty shape highest

/-- A window with validated settings. -/
def ofConfig (w : WindowConfig) (l : LatencyConfig) (start : UInt64) :
    Except Error (RollingLatency K) := do
  w.validate
  l.validate
  make w.bucketCount w.bucketWidth start l.highestTrackableNanos

/-- Counts a latency for a key in the slot of `now`. -/
def record (r : RollingLatency K) (k : K) (nanos now : UInt64) : RollingLatency K :=
  { r with window := r.window.update now (.empty r.highest) (·.record k nanos) }

/-- The latencies of a key in some buckets, merged. -/
def merge (r : RollingLatency K) (k : K) (buckets : List (Window.Interval (LatencyAccumulator K))) :
    Distribution :=
  buckets.foldl (fun d i => i.value.addTo k d) (.empty r.highest)

/-- The latencies of a key over the whole window. -/
def snapshot (r : RollingLatency K) (k : K) (now : UInt64) : Distribution :=
  r.merge k (r.window.intervals now)

/-- The latencies of a key over a trailing span. -/
def snapshotOver (r : RollingLatency K) (k : K) (span : Duration) (now : UInt64) : Distribution :=
  r.merge k (r.window.intervalsOver now span)

/-- The latencies of all keys over a trailing span. -/
def snapshotAllOver (r : RollingLatency K) (span : Duration) (now : UInt64) : Distribution :=
  (r.window.intervalsOver now span).foldl
    (fun d i => (variants K).foldl (fun d k => i.value.addTo k d) d) (.empty r.highest)

end RollingLatency

end Admission
