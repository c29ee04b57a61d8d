import Admission.Time
import Mathlib.Algebra.Order.Ring.Nat
import Mathlib.Order.Bounds.Basic
import Mathlib.Tactic.SplitIfs

/-!
# Words as numbers

Counts are added as words. A plain sum goes around the end of the range, so it is the true sum
modulo the range; a sum of `addSat` stops there, so it is the true sum as long as that fits. Rings
are as large as the least power of two that holds what they are asked for, which is less than twice
as much.

## Main results

* `sum_ofNat`: the plain sum of words
* `foldl_addSat_toNat`: the sum that stops at the largest word
* `Duration.toWord_toNat`: the word of a span
* `ceilPow2_isLeast`, `ceilPow2_lt_two_mul`: the least power of two that is large enough
-/

namespace Admission

theorem sum_ofNat {ι : Type} (l : List ι) (f : ι → Nat) :
    (l.map fun i => UInt64.ofNat (f i)).sum = UInt64.ofNat (l.map f).sum := by
  induction l with
  | nil => rfl
  | cons i l ih => rw [List.map_cons, List.sum_cons, ih, List.map_cons, List.sum_cons,
      UInt64.ofNat_add]

theorem foldl_addSat_toNat {ι : Type} (f : ι → UInt64) (l : List ι) (n : UInt64) :
    (l.foldl (fun n i => addSat n (f i)) n).toNat =
      min (n.toNat + (l.map fun i => (f i).toNat).sum) (2 ^ 64 - 1) := by
  induction l generalizing n with
  | nil =>
    have := n.toNat_lt
    simp only [List.foldl_nil, List.map_nil, List.sum_nil]
    omega
  | cons i l ih =>
    have hm : maxWord.toNat = 2 ^ 64 - 1 := rfl
    rw [List.foldl_cons, ih, addSat_toNat, hm, List.map_cons, List.sum_cons]
    omega

theorem ofNatSat_toNat (n : Nat) : (ofNatSat n).toNat = min n (2 ^ 64 - 1) := by
  unfold ofNatSat
  split_ifs with h
  · have hlt : n < 2 ^ 64 := h
    rw [UInt64.toNat_ofNat']
    omega
  · have hge : ¬ n < 2 ^ 64 := h
    have hm : maxWord.toNat = 2 ^ 64 - 1 := rfl
    rw [hm]
    omega

theorem Duration.toWord_toNat (span : Duration) :
    span.toWord.toNat = min span.nanos (2 ^ 64 - 1) :=
  ofNatSat_toNat _

theorem ceilPow2_eq (n : Nat) : ceilPow2 n = 2 ^ (if n ≤ 1 then 0 else (n - 1).log2 + 1) := by
  unfold ceilPow2
  split
  · rfl
  · exact Nat.one_shiftLeft _

/-- The least power of two that is not below a number and not zero. -/
theorem ceilPow2_isLeast (n : Nat) : IsLeast {m | (∃ k, m = 2 ^ k) ∧ max n 1 ≤ m} (ceilPow2 n) := by
  constructor
  · exact ⟨⟨_, ceilPow2_eq n⟩, max_le (le_ceilPow2 n) (ceilPow2_pos n)⟩
  · rintro m ⟨⟨k, rfl⟩, hm⟩
    have hn : n ≤ 2 ^ k := (le_max_left n 1).trans hm
    rw [ceilPow2_eq]
    refine Nat.pow_le_pow_right Nat.two_pos ?_
    split_ifs with h
    · exact Nat.zero_le k
    · exact (Nat.log2_lt (by omega)).mpr (by omega)

/-- A ring for at most `2 ^ 63` items has a number of places that divides the range of cursors. -/
theorem exists_ceilPow2_eq {n : Nat} (h : n ≤ 2 ^ 63) : ∃ k, k < 64 ∧ ceilPow2 n = 2 ^ k := by
  obtain ⟨⟨k, hk⟩, -⟩ := (ceilPow2_isLeast n).1
  refine ⟨k, ?_, hk⟩
  have hle : ceilPow2 n ≤ 2 ^ 63 := (ceilPow2_isLeast n).2 ⟨⟨63, rfl⟩, by omega⟩
  rw [hk, Nat.pow_le_pow_iff_right Nat.one_lt_two] at hle
  omega

/-- The next smaller power of two is not large enough. -/
theorem ceilPow2_lt_two_mul {n : Nat} (h : 0 < n) : ceilPow2 n < 2 * n := by
  rw [ceilPow2_eq]
  split_ifs with hone
  · omega
  · have hle : 2 ^ (n - 1).log2 ≤ n - 1 := Nat.log2_self_le (by omega)
    rw [Nat.pow_succ]
    omega

end Admission
