import Admission.Latency.Basic
import Admission.Recorder

/-!
# Interval latencies

Latencies since the previous look: every capture takes away what was recorded.

## Main definitions

* `LatencyCapture K`: the distributions of all keys at one look
* `LatencyCapture.merged`: all keys taken together
* `IntervalLatency K`: a recorder of latencies
-/

namespace Admission

open MetricKey (variants)

/-- The distributions of all keys, taken at one time. -/
structure LatencyCapture (K : Type) [MetricKey K] where
  /-- The distributions in the order of the ordinals. -/
  snapshots : Vector Distribution (MetricKey.card K)

namespace LatencyCapture

variable {K : Type} [MetricKey K]

/-- The distribution of a key. -/
def get (c : LatencyCapture K) (k : K) : Distribution := c.snapshots.get (MetricKey.ordinal k)

/-- All keys taken together. -/
def merged (c : LatencyCapture K) : Distribution :=
  match c.snapshots.toList with
  | [] => .empty Histogram.defaultHighest
  | d :: rest => rest.foldl Distribution.merge d

end LatencyCapture

/-- A recorder of latencies per key. -/
structure IntervalLatency (K : Type) [MetricKey K] where
  highest : UInt64
  recorder : Recorder (LatencyAccumulator K)

namespace IntervalLatency

variable {K : Type} [MetricKey K]

/-- A recorder for latencies up to a bound of at least two. -/
def make (highest : UInt64) : Except Error (IntervalLatency K) := do
  let a ← LatencyAccumulator.make highest
  return { highest, recorder := { first := a, second := a } }

/-- A recorder with validated settings. -/
def ofConfig (c : LatencyConfig) : Except Error (IntervalLatency K) := do
  c.validate
  make c.highestTrackableNanos

/-- Counts a latency for a key. -/
def record (l : IntervalLatency K) (k : K) (nanos : UInt64) : IntervalLatency K :=
  { l with recorder := (l.recorder.record fun a => (a.record k nanos, ())).1 }

/-- The latencies of an accumulator, for every key. -/
def captureOf (a : LatencyAccumulator K) : LatencyCapture K :=
  ⟨Vector.ofFn fun i => a.snapshot (MetricKey.ofOrdinal i)⟩

/-- Takes the latencies recorded since the previous capture. -/
def capture (l : IntervalLatency K) : IntervalLatency K × LatencyCapture K :=
  let (r, c) := l.recorder.capture captureOf LatencyAccumulator.reset
  ({ l with recorder := r }, c)

end IntervalLatency

end Admission
