import Admission.Histogram.Basic
import Admission.Outcome.Basic

/-!
# Latencies per key

One histogram per key of a vocabulary, made when the key is first recorded.

## Main definitions

* `LatencyConfig`: the settings, and which of them are valid
* `LatencyAccumulator K`: a histogram per key
* `LatencyAccumulator.record`, `LatencyAccumulator.addTo`, `LatencyAccumulator.snapshot`: recording
  a latency, and the distribution of a key
-/

namespace Admission

open MetricKey (card ordinal ordinal_lt variants)

/-- The settings of latency histograms. -/
structure LatencyConfig where
  /-- The greatest latency told apart, in nanoseconds. -/
  highestTrackableNanos : UInt64 := Histogram.defaultHighest
deriving DecidableEq, Repr

/-- Checks the settings: a bound is at least two. -/
def LatencyConfig.validate (c : LatencyConfig) : Except Error Unit :=
  require (2 ≤ c.highestTrackableNanos) .latencyBoundNanos

/-- A histogram for every key of a vocabulary that was recorded. -/
structure LatencyAccumulator (K : Type) [MetricKey K] where
  highest : UInt64
  /-- The histograms in the order of the ordinals. -/
  histograms : Vector (Option Histogram) (card K)

namespace LatencyAccumulator

variable {K : Type} [MetricKey K]

/-- An accumulator without values. -/
def empty (highest : UInt64) : LatencyAccumulator K := ⟨highest, Vector.replicate _ none⟩

/-- An accumulator without values, for a bound of at least two. -/
def make (highest : UInt64) : Except Error (LatencyAccumulator K) := do
  require (2 ≤ highest) .latencyBound
  return empty highest

/-- The histogram of a key, if it was recorded. -/
def get? (a : LatencyAccumulator K) (k : K) : Option Histogram := a.histograms.get (ordinal k)

/-- Counts a latency for a key. -/
def record (a : LatencyAccumulator K) (k : K) (nanos : UInt64) : LatencyAccumulator K :=
  let h := ((a.get? k).getD (.empty a.highest)).record nanos 1
  { a with histograms := a.histograms.set (ordinal k) (some h) (ordinal_lt k) }

/-- The number of latencies recorded for a key. -/
def count (a : LatencyAccumulator K) (k : K) : UInt64 := ((a.get? k).map (·.size)).getD 0

/-- Adds the latencies of a key to a distribution. -/
def addTo (a : LatencyAccumulator K) (k : K) (d : Distribution) : Distribution :=
  match a.get? k with
  | some h => h.addTo d
  | none => d

/-- The distribution of a key. -/
def snapshot (a : LatencyAccumulator K) (k : K) : Distribution := a.addTo k (.empty a.highest)

/-- The accumulator without its values. -/
def reset (a : LatencyAccumulator K) : LatencyAccumulator K :=
  { a with histograms := a.histograms.map (·.map Histogram.reset) }

end LatencyAccumulator

end Admission
