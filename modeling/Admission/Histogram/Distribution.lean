import Admission.Histogram.Bins

/-!
# Latency distributions

A distribution is a finished histogram that answers questions on its values. Counts stop at the
largest word, and values beyond the last bin are not counted.

## Main definitions

* `Distribution`: counts per bin, with the least and greatest recorded value
* `Distribution.record`, `Distribution.merge`: adding values, and another distribution
* `Distribution.min`, `Distribution.max`, `Distribution.mean`, `Distribution.percentile`: the usual
  questions; a value stands for its whole bin
-/

namespace Admission

/-- Counts of values, sorted into bins. -/
structure Distribution where
  /-- The bound for which the bins were laid out. -/
  highest : UInt64
  bins : Bins
  /-- The least value recorded other than zero, or the largest word. -/
  least : UInt64
  greatest : UInt64
deriving DecidableEq, Repr

namespace Distribution

/-- A distribution without values, for values up to `highest`. -/
def empty (highest : UInt64) : Distribution where
  highest := if highest < 2 then 2 else highest
  bins := .empty
  least := maxWord
  greatest := 0

/-- Counts a value `n` times, unless it lies beyond the last bin. -/
def record (d : Distribution) (v n : UInt64) : Distribution :=
  if Bin.index v < Bin.total d.highest then
    { d with
      bins := d.bins.alter (Bin.index v) (addSat · n)
      least := if v ≠ 0 ∧ v < d.least then v else d.least
      greatest := if d.greatest < v then v else d.greatest }
  else d

/-- The number of recorded values. -/
def count (d : Distribution) : UInt64 := ofNatSat d.bins.sum

/-- Whether no value was recorded. -/
def isEmpty (d : Distribution) : Bool := d.count == 0

/-- The least value other than zero, taken as the least value of its bin. Where nothing replaced the
largest word it stands for itself. -/
def minNonZero (d : Distribution) : UInt64 :=
  if d.least = maxWord then maxWord else Bin.floor d.least

/-- The least recorded value, taken as the least value of its bin, and zero if there is none. -/
def min (d : Distribution) : UInt64 :=
  if d.isEmpty ∨ d.bins.get 0 ≠ 0 then 0 else d.minNonZero

/-- The greatest value of the highest bin counted in, and zero if there is none. -/
def max (d : Distribution) : UInt64 :=
  if d.greatest = 0 then 0 else Bin.high d.greatest

/-- The mean of the values, each taken as the middle of its bin. -/
def mean (d : Distribution) : Float :=
  if d.isEmpty then 0.0
  else
    let total := d.count.toFloat
    d.bins.entries.foldl
      (fun acc e => acc + (Bin.middle (Bin.low e.1)).toFloat * e.2.toFloat / total) 0.0

/-- The first bin at which the running count reaches a target. -/
def binReaching (target : Nat) : List (UInt64 × UInt64) → Nat → Option UInt64
  | [], _ => none
  | (i, n) :: rest, seen =>
    if target ≤ seen + n.toNat then some i else binReaching target rest (seen + n.toNat)

/-- The value below or at which the given percentage of the values lies. The percentage is first
brought into the range from 0 to 100. -/
def percentile (d : Distribution) (p : Float) : UInt64 :=
  let p := if p < 0.0 then 0.0 else if 100.0 < p then 100.0 else p
  let q := p / 100.0
  -- At least one value is looked for, so percentile zero is the lowest bin counted in.
  let target := (q * d.count.toFloat).ceil.toUInt64
  let target := if target = 0 then 1 else target
  match binReaching target.toNat d.bins.entries 0 with
  | none => 0
  | some i => if q == 0.0 then Bin.low i else Bin.high (Bin.low i)

/-- The bins counted in, each with its greatest value and its count, in ascending order. -/
def buckets (d : Distribution) : List (UInt64 × UInt64) :=
  d.bins.entries.map fun e => (Bin.high (Bin.low e.1), e.2)

/-- Adds the counts of a distribution with the same bins. -/
def merge (d other : Distribution) : Distribution where
  highest := d.highest
  bins := other.bins.entries.foldl (fun b e => b.alter e.1 (addSat · e.2)) d.bins
  least := if other.minNonZero < d.minNonZero then other.minNonZero else d.least
  greatest := if d.max < other.max then other.max else d.greatest

end Distribution

end Admission
