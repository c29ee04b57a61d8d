/-!
# Machine words that stop at their ends

Timestamps, spans and counts are 64-bit words. Where a sum or a difference would leave the range
it stops at the end of the range instead of wrapping around.

## Main definitions

* `maxWord`: the largest word
* `addSat`, `subSat`: sum and difference that stop at the ends of the range
* `ofNatSat`: the word nearest to a natural number
* `ceilPow2`: the least power of two that is at least a given number
-/

namespace Admission

/-- Sums start from the literal zero, whichever other zero is in scope. -/
instance (priority := 1100) zeroNat : Zero Nat := ⟨0⟩
instance (priority := 1100) zeroWord : Zero UInt64 := ⟨0⟩

/-- The largest 64-bit word. -/
def maxWord : UInt64 := 18446744073709551615

/-- The sum of two words, or the largest word if the sum does not fit. -/
def addSat (a b : UInt64) : UInt64 :=
  if a ≤ maxWord - b then a + b else maxWord

/-- The difference of two words, or zero if it is negative. -/
def subSat (a b : UInt64) : UInt64 :=
  if b ≤ a then a - b else 0

/-- The word nearest to a natural number. -/
def ofNatSat (n : Nat) : UInt64 :=
  if n < UInt64.size then UInt64.ofNat n else maxWord

/-- The least power of two that is at least `n`, and one for `n = 0`. -/
def ceilPow2 (n : Nat) : Nat :=
  if n ≤ 1 then 1 else 1 <<< ((n - 1).log2 + 1)

theorem ceilPow2_pos (n : Nat) : 0 < ceilPow2 n := by
  unfold ceilPow2
  split
  · exact Nat.one_pos
  · rw [Nat.one_shiftLeft]
    exact Nat.two_pow_pos _

theorem le_ceilPow2 (n : Nat) : n ≤ ceilPow2 n := by
  unfold ceilPow2
  split
  · omega
  · have : n - 1 < 2 ^ ((n - 1).log2 + 1) := Nat.lt_log2_self
    rw [Nat.one_shiftLeft]
    omega

theorem le_maxWord (v : UInt64) : v ≤ maxWord := by
  have hm : maxWord.toNat = 2 ^ 64 - 1 := rfl
  have hv := v.toNat_lt
  rw [UInt64.le_iff_toNat_le, hm]
  omega

theorem subSat_toNat (a b : UInt64) : (subSat a b).toNat = a.toNat - b.toNat := by
  unfold subSat
  split
  · rename_i h
    exact UInt64.toNat_sub_of_le _ _ h
  · rename_i h
    have : a.toNat < b.toNat := by
      simpa [UInt64.le_iff_toNat_le] using h
    simp
    omega

theorem addSat_toNat (a b : UInt64) : (addSat a b).toNat = min
    (a.toNat + b.toNat) maxWord.toNat := by
  have hb := b.toNat_lt
  have hm : maxWord.toNat = 2 ^ 64 - 1 := rfl
  have hs : (maxWord - b).toNat = 2 ^ 64 - 1 - b.toNat := by
    rw [UInt64.toNat_sub_of_le, hm]
    rw [UInt64.le_iff_toNat_le, hm]
    omega
  unfold addSat
  split
  · rename_i h
    rw [UInt64.le_iff_toNat_le, hs] at h
    rw [UInt64.toNat_add, hm]
    omega
  · rename_i h
    rw [UInt64.le_iff_toNat_le, hs] at h
    rw [hm]
    omega

end Admission
