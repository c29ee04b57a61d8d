import Admission.Histogram.Layout

/-!
# Sparse counts of bins

The counts of a histogram's bins, as a list of bin numbers in ascending order. A bin that is not
listed has count zero.

## Main definitions

* `Bins`: the counts of the bins that were ever counted in
* `Bins.alter`: changes the count of one bin
* `Bins.entries`: the bins with a count other than zero, in ascending order
-/

namespace Admission

/-- Counts of bins. -/
structure Bins where
  /-- Bin numbers with their counts, in ascending order. -/
  cells : List (UInt64 × UInt64)
deriving DecidableEq, Repr

namespace Bins

/-- No counts. -/
def empty : Bins := ⟨[]⟩

/-- The count of a bin. -/
def get (b : Bins) (i : UInt64) : UInt64 :=
  ((b.cells.find? fun e => e.1 == i).map (·.2)).getD 0

/-- Changes the count of a bin. -/
def alter (b : Bins) (i : UInt64) (f : UInt64 → UInt64) : Bins :=
  ⟨go b.cells⟩
where
  /-- Changes the count of the bin in the rest of the list. -/
  go : List (UInt64 × UInt64) → List (UInt64 × UInt64)
    | [] => [(i, f 0)]
    | (j, n) :: rest =>
      if i < j then (i, f 0) :: (j, n) :: rest
      else if i = j then (i, f n) :: rest
      else (j, n) :: go rest

/-- The bins with a count other than zero, in ascending order. -/
def entries (b : Bins) : List (UInt64 × UInt64) := b.cells.filter fun e => e.2 != 0

/-- The sum of all counts. -/
def sum (b : Bins) : Nat := (b.entries.map (·.2.toNat)).sum

@[simp] theorem get_empty {i : UInt64} : empty.get i = 0 := rfl

end Bins

end Admission
