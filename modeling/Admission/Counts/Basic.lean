import Admission.Outcome.Basic
import Admission.Word

/-!
# Counts per key

One count for every member of a vocabulary. A single count goes around the end of its range.

## Main definitions

* `Counts K`: a count per key
* `Counts.total`, `Counts.totalWhere`: sums over all keys, and over those with a property
-/

namespace Admission

open MetricKey (card ordinal variants)

/-- A count for every key of a vocabulary. -/
structure Counts (K : Type) [MetricKey K] where
  /-- The counts in the order of the ordinals. -/
  cells : Vector UInt64 (card K)

namespace Counts

variable {K : Type} [MetricKey K]

/-- No counts yet. -/
def zero : Counts K := ⟨Vector.replicate _ 0⟩

/-- The count of a key. -/
def get (c : Counts K) (k : K) : UInt64 := c.cells[(ordinal k).val]

/-- Adds to the count of a key. -/
def add (c : Counts K) (k : K) (delta : UInt64) : Counts K :=
  ⟨c.cells.set (ordinal k) (c.get k + delta) (ordinal k).isLt⟩

/-- The counts in the order of the keys. -/
def toList (c : Counts K) : List UInt64 := (variants K).map c.get

/-- The sum over the keys with a property. -/
def totalWhere (c : Counts K) (p : K → Bool) : UInt64 :=
  (((variants K).filter p).map c.get).sum

/-- The sum over all keys. -/
def total (c : Counts K) : UInt64 := c.toList.sum

variable {c : Counts K} {k l : K} {d : UInt64}

@[simp] theorem get_zero : (zero : Counts K).get k = 0 := by
  simp [zero, get]

@[simp] theorem get_add_self : (c.add k d).get k = c.get k + d := by
  simp [add, get]

theorem get_add_of_ne (h : k ≠ l) : (c.add k d).get l = c.get l := by
  have : (ordinal k).val ≠ (ordinal l).val := fun e =>
    h (MetricKey.ordinal_injective (Fin.ext e))
  simp [add, get, this]

/-- Counts are equal when they agree on every key. -/
@[ext] theorem ext {c d : Counts K} (h : ∀ k, c.get k = d.get k) : c = d := by
  obtain ⟨c⟩ := c
  obtain ⟨d⟩ := d
  congr 1
  apply Vector.ext
  intro i hi
  have := h (MetricKey.ofOrdinal ⟨i, hi⟩)
  simpa [get, MetricKey.ordinal_ofOrdinal] using this

end Counts

end Admission
