import Admission.Word

/-!
# The layout of latency histograms

Values are sorted into bins with three significant decimal digits: values below 2048 have a bin of
their own, and above that every doubling of the value doubles the width of the bins. Bins are
numbered without gaps from zero, in the order of their values.

## Main definitions

* `Bin.index`: the bin of a value
* `Bin.low`: the least value of a bin
* `Bin.width`, `Bin.high`, `Bin.middle`: the size of a value's bin, its greatest value and its
  middle
* `Bin.total`: the number of bins of a histogram that stores values up to a given one
-/

namespace Admission

namespace Bin

/-- How often the width of a value's bin has been doubled: as many times as the value has more than
eleven binary digits. -/
def doublings (v : UInt64) : UInt64 := (v ||| 2047).log2 - 10

/-- The number of the bin of a value. -/
def index (v : UInt64) : UInt64 := (doublings v <<< 10) + (v >>> doublings v)

/-- The least value of the bin with a given number. -/
def low (i : UInt64) : UInt64 :=
  let half := i &&& 1023
  if i >>> 10 = 0 then half else (half + 1024) <<< ((i >>> 10) - 1)

/-- The number of values in the bin of a value. -/
def width (v : UInt64) : UInt64 := 1 <<< doublings v

/-- The least value of the bin of a value. -/
def floor (v : UInt64) : UInt64 := (v >>> doublings v) <<< doublings v

/-- The greatest value of the bin of a value. The end of the last bin of all is one short, since the
bin after it would begin beyond the largest word; the largest word itself stands for its own end. -/
def high (v : UInt64) : UInt64 :=
  if v = maxWord then maxWord else addSat (floor v) (width v) - 1

/-- The middle of the bin of a value. -/
def middle (v : UInt64) : UInt64 := floor v + width v / 2

/-- How many doublings of the bin width a histogram needs to store values up to `highest`, counted
from one. -/
def levels (highest : UInt64) : UInt64 :=
  go 64 2048 1
where
  /-- Doubles the first value out of reach until it lies above `highest`; the level that would reach
  beyond the largest word is the last. -/
  go : Nat → UInt64 → UInt64 → UInt64
    | 0, _, n => n
    | fuel + 1, beyond, n =>
      if beyond ≤ highest then
        if maxWord / 2 < beyond then n + 1 else go fuel (beyond <<< 1) (n + 1)
      else n

/-- The number of bins of a histogram that stores values up to `highest`. -/
def total (highest : UInt64) : UInt64 := (levels highest + 1) * 1024

end Bin

end Admission
