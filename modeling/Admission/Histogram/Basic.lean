import Admission.Error
import Admission.Histogram.Distribution

/-!
# Latency histograms

A histogram counts values while they are recorded. Values above its bound count as the bound, and
its counts go around the end of their range. A snapshot of it is a distribution.

## Main definitions

* `Histogram`: the counts of the bins and of all values
* `Histogram.record`: counts a value
* `Histogram.addTo`, `Histogram.snapshot`: replays the counts into a distribution
-/

namespace Admission

/-- Counts of recorded values, sorted into bins. -/
structure Histogram where
  /-- The greatest value told apart; larger values count as this one. -/
  highest : UInt64
  bins : Bins
  size : UInt64
deriving DecidableEq, Repr

namespace Histogram

/-- The bound of a histogram that is not given one: one hour in nanoseconds. -/
def defaultHighest : UInt64 := 3600000000000

/-- A histogram without values. -/
def empty (highest : UInt64) : Histogram := ⟨highest, .empty, 0⟩

/-- A histogram without values, for a bound of at least two. -/
def make (highest : UInt64) : Except Error Histogram := do
  require (2 ≤ highest) .histogramBound
  return empty highest

/-- Counts a value `n` times. -/
def record (h : Histogram) (v n : UInt64) : Histogram :=
  let v := if h.highest < v then h.highest else v
  { h with bins := h.bins.alter (Bin.index v) (· + n), size := h.size + n }

/-- Whether no value was recorded. -/
def isEmpty (h : Histogram) : Bool := h.size == 0

/-- The histogram without its values. -/
def reset (h : Histogram) : Histogram := empty h.highest

/-- Records the least value of every bin into a distribution, as often as the bin was counted in. -/
def addTo (h : Histogram) (d : Distribution) : Distribution :=
  h.bins.entries.foldl (fun d e => d.record (Bin.low e.1) e.2) d

/-- The distribution of the recorded values. -/
def snapshot (h : Histogram) : Distribution := h.addTo (.empty h.highest)

end Histogram

end Admission
