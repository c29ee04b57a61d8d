import Admission.Histogram.Layout
import Mathlib.Algebra.Order.Ring.Nat

/-!
# The bins of latency histograms

A value with at most eleven binary digits has a bin of its own, and every further digit doubles the
width of the bins. Each doubling adds 1024 bins, the upper half of a run of 2048. So the bin of a
value is found by dropping all its digits but the first eleven, and the least value of a bin by
putting zeros in their place.

## Main results

* `Bin.index_toNat`, `Bin.low_toNat`: the bin of a value and the least value of a bin, as numbers
* `Bin.low_index`: the least value of the bin of a value is the value rounded down
* `Bin.index_low`: bins are told apart by their least values
* `Bin.index_le_index`: bins are in the order of their values
* `Bin.index_lt_total`: a histogram has a bin for each value up to its bound
-/

namespace Admission.Bin

variable {v w i highest : UInt64}

/-! ## Values -/

theorem log2_or (n : Nat) : (n ||| 2047).log2 = max n.log2 10 := by
  have hpos : n ||| 2047 ≠ 0 := by
    have := @Nat.right_le_or n 2047
    omega
  rw [Nat.log2_eq_iff hpos]
  constructor
  · rcases Nat.le_total n.log2 10 with h | h
    · rw [max_eq_right h]
      exact Nat.le_trans (by decide) Nat.right_le_or
    · rw [max_eq_left h]
      have hn : n ≠ 0 := by
        rintro rfl
        simp at h
      exact Nat.le_trans (Nat.log2_self_le hn) Nat.left_le_or
  · apply Nat.or_lt_two_pow
    · exact Nat.lt_of_lt_of_le Nat.lt_log2_self (Nat.pow_le_pow_right (by decide) (by omega))
    · exact Nat.lt_of_lt_of_le (by decide : 2047 < 2 ^ 11)
        (Nat.pow_le_pow_right (by decide) (by omega))

/-- The width of a bin has been doubled for each binary digit after the eleventh. -/
theorem doublings_toNat (v : UInt64) : (doublings v).toNat = v.toNat.log2 - 10 := by
  have hlog : (v ||| 2047).log2.toNat = max v.toNat.log2 10 := by
    change ((v ||| 2047).toNat).log2 = _
    rw [UInt64.toNat_or]
    exact log2_or _
  have hten : (10 : UInt64).toNat = 10 := rfl
  rw [doublings, UInt64.toNat_sub_of_le, hlog]
  · omega
  · rw [UInt64.le_iff_toNat_le, hlog, hten]
    omega

theorem doublings_le (v : UInt64) : (doublings v).toNat ≤ 53 := by
  have hlog : v.toNat.log2 < 64 := by
    by_cases hv : v.toNat = 0
    · rw [hv]
      decide
    · exact (Nat.log2_lt hv).mpr v.toNat_lt
  rw [doublings_toNat]
  omega

theorem lt_of_doublings (v : UInt64) : v.toNat < 2048 * 2 ^ (doublings v).toNat := by
  have hlog : v.toNat < 2 ^ (v.toNat.log2 + 1) := Nat.lt_log2_self
  rw [doublings_toNat, show 2048 = 2 ^ 11 from rfl, ← Nat.pow_add]
  exact Nat.lt_of_lt_of_le hlog (Nat.pow_le_pow_right (by decide) (by omega))

theorem le_of_doublings (h : 0 < (doublings v).toNat) :
    1024 * 2 ^ (doublings v).toNat ≤ v.toNat := by
  rw [doublings_toNat] at h ⊢
  have hv : v.toNat ≠ 0 := by
    intro hv
    rw [hv] at h
    exact absurd h (by decide)
  rw [show 1024 = 2 ^ 10 from rfl, ← Nat.pow_add,
    show 10 + (v.toNat.log2 - 10) = v.toNat.log2 by omega]
  exact Nat.log2_self_le hv

theorem lt_doublings_iff {k : Nat} : k < (doublings v).toNat ↔ 2048 * 2 ^ k ≤ v.toNat := by
  constructor
  · intro h
    have hmin := le_of_doublings (v := v) (by omega)
    have hpow : 2 ^ (k + 1) ≤ 2 ^ (doublings v).toNat := Nat.pow_le_pow_right (by decide) h
    rw [Nat.pow_succ] at hpow
    omega
  · intro h
    by_contra hno
    have hlt := lt_of_doublings v
    have hpow : 2 ^ (doublings v).toNat ≤ 2 ^ k := Nat.pow_le_pow_right (by decide) (by omega)
    omega

/-- The first digits of a value, up to eleven of them. -/
def leading (v : UInt64) : Nat := v.toNat / 2 ^ (doublings v).toNat

theorem leading_lt (v : UInt64) : leading v < 2048 :=
  Nat.div_lt_of_lt_mul (Nat.mul_comm 2048 _ ▸ lt_of_doublings v)

theorem le_leading (h : 0 < (doublings v).toNat) : 1024 ≤ leading v :=
  (Nat.le_div_iff_mul_le (Nat.two_pow_pos _)).mpr (le_of_doublings h)

theorem shiftRight_doublings (v : UInt64) : (v >>> doublings v).toNat = leading v := by
  have := doublings_le v
  rw [UInt64.toNat_shiftRight, Nat.mod_eq_of_lt (by omega), Nat.shiftRight_eq_div_pow, leading]

theorem base_toNat (v : UInt64) : (doublings v <<< 10).toNat = (doublings v).toNat * 1024 := by
  have hd := doublings_le v
  have hten : (10 : UInt64).toNat % 64 = 10 := rfl
  rw [UInt64.toNat_shiftLeft, hten, Nat.shiftLeft_eq]
  omega

theorem index_toNat (v : UInt64) : (index v).toNat = (doublings v).toNat * 1024 + leading v := by
  have hd := doublings_le v
  have hl := leading_lt v
  rw [index, UInt64.toNat_add, base_toNat, shiftRight_doublings]
  omega

theorem floor_toNat (v : UInt64) : (floor v).toNat = leading v * 2 ^ (doublings v).toNat := by
  have hd : (doublings v).toNat % 64 = (doublings v).toNat :=
    Nat.mod_eq_of_lt (Nat.lt_of_le_of_lt (doublings_le v) (by decide))
  have hle : leading v * 2 ^ (doublings v).toNat ≤ v.toNat := Nat.div_mul_le_self _ _
  rw [floor, UInt64.toNat_shiftLeft, shiftRight_doublings, hd, Nat.shiftLeft_eq,
    Nat.mod_eq_of_lt (Nat.lt_of_le_of_lt hle v.toNat_lt)]

/-! ## Bins -/

/-- The place of a bin in its run of 1024. -/
theorem half_toNat (i : UInt64) : (i &&& 1023).toNat = i.toNat % 1024 := by
  rw [UInt64.toNat_and]
  exact Nat.and_two_pow_sub_one_eq_mod i.toNat 10

/-- The run of a bin. -/
theorem run_toNat (i : UInt64) : (i >>> 10).toNat = i.toNat / 1024 := by
  have hten : (10 : UInt64).toNat % 64 = 10 := rfl
  rw [UInt64.toNat_shiftRight, hten, Nat.shiftRight_eq_div_pow]

theorem run_eq_zero_iff (i : UInt64) : i >>> 10 = 0 ↔ i.toNat < 1024 := by
  rw [← UInt64.toNat_inj, run_toNat]
  show i.toNat / 1024 = 0 ↔ _
  omega

theorem first_toNat (i : UInt64) : ((i &&& 1023) + 1024).toNat = i.toNat % 1024 + 1024 := by
  have hk : (1024 : UInt64).toNat = 1024 := rfl
  rw [UInt64.toNat_add, half_toNat, hk]
  omega

/-- The last bin of all starts below the end of the words. -/
theorem first_mul_lt (h : i.toNat < 56320) :
    (i.toNat % 1024 + 1024) * 2 ^ (i.toNat / 1024 - 1) < 2 ^ 64 :=
  calc (i.toNat % 1024 + 1024) * 2 ^ (i.toNat / 1024 - 1)
    _ < 2 ^ 11 * 2 ^ (i.toNat / 1024 - 1) :=
      Nat.mul_lt_mul_of_pos_right (by omega) (Nat.two_pow_pos _)
    _ = 2 ^ (11 + (i.toNat / 1024 - 1)) := (Nat.pow_add _ _ _).symm
    _ ≤ 2 ^ 64 := Nat.pow_le_pow_right (by decide) (by omega)

theorem low_toNat (h : i.toNat < 56320) :
    (low i).toNat =
      if i.toNat < 1024 then i.toNat
      else (i.toNat % 1024 + 1024) * 2 ^ (i.toNat / 1024 - 1) := by
  unfold low
  dsimp only
  by_cases hi : i.toNat < 1024
  · rw [if_pos ((run_eq_zero_iff i).mpr hi), if_pos hi, half_toNat]
    omega
  · have hone : (1 : UInt64).toNat = 1 := rfl
    have hpred : (i >>> 10 - 1).toNat = i.toNat / 1024 - 1 := by
      rw [UInt64.toNat_sub_of_le, run_toNat, hone]
      rw [UInt64.le_iff_toNat_le, run_toNat, hone]
      omega
    rw [if_neg fun h => hi ((run_eq_zero_iff i).mp h), if_neg hi, UInt64.toNat_shiftLeft,
      first_toNat, hpred, Nat.mod_eq_of_lt (by omega : i.toNat / 1024 - 1 < 64), Nat.shiftLeft_eq,
      Nat.mod_eq_of_lt (first_mul_lt h)]

theorem index_lt (v : UInt64) : (index v).toNat < 56320 := by
  have hd := doublings_le v
  have hl := leading_lt v
  rw [index_toNat]
  omega

/-- The least value of the bin of a value. -/
theorem low_index (v : UInt64) : low (index v) = floor v := by
  apply UInt64.toNat_inj.mp
  have hl := leading_lt v
  rw [low_toNat (index_lt v), floor_toNat, index_toNat]
  by_cases hd : (doublings v).toNat = 0
  · rw [hd, Nat.zero_mul, Nat.zero_add, Nat.pow_zero, Nat.mul_one]
    split
    · rfl
    · rw [show leading v / 1024 - 1 = 0 by omega, Nat.pow_zero]
      omega
  · have hle := le_leading (Nat.pos_of_ne_zero hd)
    rw [if_neg (by omega), show ((doublings v).toNat * 1024 + leading v) % 1024 + 1024 =
      leading v by omega, show ((doublings v).toNat * 1024 + leading v) / 1024 - 1 =
      (doublings v).toNat by omega]

theorem doublings_eq {d : Nat} (hlt : v.toNat < 2048 * 2 ^ d)
    (hle : d = 0 ∨ 1024 * 2 ^ d ≤ v.toNat) :
    (doublings v).toNat = d := by
  rw [doublings_toNat]
  rw [show 2048 = 2 ^ 11 from rfl, ← Nat.pow_add] at hlt
  rcases hle with rfl | hle
  · by_cases hv : v.toNat = 0
    · rw [hv]
      rfl
    · have := (Nat.log2_lt hv).mpr hlt
      omega
  · rw [show 1024 = 2 ^ 10 from rfl, ← Nat.pow_add] at hle
    have hv : v.toNat ≠ 0 := by
      have := Nat.two_pow_pos (10 + d)
      omega
    have := (Nat.log2_lt hv).mpr hlt
    have := (Nat.le_log2 hv).mpr hle
    omega

/-- The bin of the least value of a bin. -/
theorem index_low (h : i.toNat < 56320) : index (low i) = i := by
  apply UInt64.toNat_inj.mp
  have hlow := low_toNat h
  by_cases hi : i.toNat < 1024
  · rw [if_pos hi] at hlow
    have hd : (doublings (low i)).toNat = 0 := doublings_eq (by omega) (Or.inl rfl)
    rw [index_toNat, leading, hd, hlow]
    omega
  · rw [if_neg hi] at hlow
    have hd : (doublings (low i)).toNat = i.toNat / 1024 - 1 := by
      apply doublings_eq
      · rw [hlow]
        exact Nat.mul_lt_mul_of_pos_right (by omega) (Nat.two_pow_pos _)
      · refine Or.inr ?_
        rw [hlow]
        exact Nat.mul_le_mul_right _ (by omega)
    rw [index_toNat, leading, hd, hlow, Nat.mul_div_cancel _ (Nat.two_pow_pos _)]
    omega

/-- Bins are in the order of their values. -/
theorem index_le_index (h : v ≤ w) : index v ≤ index w := by
  rw [UInt64.le_iff_toNat_le] at h ⊢
  have hd : (doublings v).toNat ≤ (doublings w).toNat := by
    rw [doublings_toNat, doublings_toNat]
    have : v.toNat.log2 ≤ w.toNat.log2 := by
      by_cases hv : v.toNat = 0
      · rw [hv]
        exact Nat.zero_le _
      · exact (Nat.le_log2 (by omega)).mpr (Nat.le_trans (Nat.log2_self_le hv) h)
    omega
  rw [index_toNat, index_toNat]
  rcases Nat.lt_or_eq_of_le hd with hd | hd
  · -- The greater value lies in the upper half of a later run.
    have := leading_lt v
    have := le_leading (v := w) (by omega)
    omega
  · have : leading v ≤ leading w := by
      rw [leading, leading, hd]
      exact Nat.div_le_div_right h
    omega

/-- The value zero has the first bin for itself. -/
theorem index_eq_zero_iff : index v = 0 ↔ v = 0 := by
  constructor
  · intro h
    have hi := index_toNat v
    have hzero : (index v).toNat = 0 := by
      rw [h]
      rfl
    have hd : (doublings v).toNat = 0 := by omega
    have hl : leading v = 0 := by omega
    apply UInt64.toNat_inj.mp
    rw [leading, hd, Nat.pow_zero, Nat.div_one] at hl
    exact hl
  · rintro rfl
    rfl

theorem floor_eq_of_index_eq (h : index v = index w) : floor v = floor w := by
  rw [← low_index, ← low_index, h]

/-- The number of a bin tells how wide it is. -/
theorem doublings_eq_index (v : UInt64) : (doublings v).toNat = (index v).toNat / 1024 - 1 := by
  have hl := leading_lt v
  rw [index_toNat]
  by_cases hd : (doublings v).toNat = 0
  · omega
  · have := le_leading (Nat.pos_of_ne_zero hd)
    omega

theorem width_eq_of_index_eq (h : index v = index w) : width v = width w := by
  have hd : doublings v = doublings w := by
    apply UInt64.toNat_inj.mp
    rw [doublings_eq_index, doublings_eq_index, h]
  rw [width, width, hd]

/-! ## The number of bins -/

section Doubling

variable {k : Nat} {beyond : UInt64}

theorem double_toNat (h : beyond.toNat < 2 ^ 63) (hbeyond : beyond.toNat = 2048 * 2 ^ k) :
    (beyond <<< 1).toNat = 2048 * 2 ^ (k + 1) := by
  have hone : (1 : UInt64).toNat = 1 := rfl
  rw [UInt64.toNat_shiftLeft, hbeyond, hone, Nat.shiftLeft_eq, Nat.pow_succ]
  omega

/-- The last value out of reach that is a word lies above half of the words. -/
theorem le_of_half_lt (hbeyond : beyond.toNat = 2048 * 2 ^ k)
    (h : maxWord / 2 < beyond) : 52 ≤ k := by
  have hm : (maxWord / 2).toNat = 2 ^ 63 - 1 := rfl
  rw [UInt64.lt_iff_toNat_lt, hm, hbeyond] at h
  by_contra hno
  have hpow : 2 ^ k ≤ 2 ^ 51 := Nat.pow_le_pow_right (by decide) (by omega)
  omega

theorem lt_of_not_half_lt (h : ¬ maxWord / 2 < beyond) : beyond.toNat < 2 ^ 63 := by
  have hm : (maxWord / 2).toNat = 2 ^ 63 - 1 := rfl
  rw [UInt64.lt_iff_toNat_lt, hm] at h
  omega

end Doubling

theorem levels_toNat (highest : UInt64) : (levels highest).toNat =
    (doublings highest).toNat + 1 := by
  have hd := doublings_le highest
  -- The loop has found out that the bound needs `k` doublings at least.
  have hgo : ∀ (fuel k : Nat) (beyond n : UInt64), k ≤ (doublings highest).toNat →
      (doublings highest).toNat < k + fuel → beyond.toNat = 2048 * 2 ^ k → n.toNat = k + 1 →
      (levels.go highest fuel beyond n).toNat = (doublings highest).toNat + 1 := by
    intro fuel
    induction fuel with
    | zero => intros; omega
    | succ fuel ih =>
      intro k beyond n hk hfuel hbeyond hn
      have hone : (1 : UInt64).toNat = 1 := rfl
      have hnext : (n + 1).toNat = k + 2 := by
        rw [UInt64.toNat_add, hn, hone]
        omega
      have hmore : beyond ≤ highest ↔ k < (doublings highest).toNat := by
        rw [UInt64.le_iff_toNat_le, hbeyond]
        exact lt_doublings_iff.symm
      rw [levels.go]
      by_cases hle : beyond ≤ highest
      · rw [if_pos hle]
        by_cases hend : maxWord / 2 < beyond
        · have := le_of_half_lt hbeyond hend
          have := hmore.mp hle
          rw [if_pos hend, hnext]
          omega
        · rw [if_neg hend]
          exact ih (k + 1) _ _ (hmore.mp hle) (by omega)
            (double_toNat (lt_of_not_half_lt hend) hbeyond) hnext
      · have := mt hmore.mpr hle
        rw [if_neg hle, hn]
        omega
  exact hgo 64 0 2048 1 (Nat.zero_le _) (by omega) rfl rfl

theorem total_toNat (highest : UInt64) :
    (total highest).toNat = ((doublings highest).toNat + 2) * 1024 := by
  have hd := doublings_le highest
  have hl := levels_toNat highest
  have hone : (1 : UInt64).toNat = 1 := rfl
  have hk : (1024 : UInt64).toNat = 1024 := rfl
  rw [total, UInt64.toNat_mul, UInt64.toNat_add, hl, hone, hk]
  omega

/-- A histogram has a bin for its bound. -/
theorem index_lt_total (highest : UInt64) : index highest < total highest := by
  have := leading_lt highest
  rw [UInt64.lt_iff_toNat_lt, index_toNat, total_toNat]
  omega

/-- The greatest word is not the least value of a bin. -/
theorem low_ne_maxWord (h : i.toNat < 56320) : low i ≠ maxWord := by
  intro hlow
  have hi := index_low h
  rw [hlow] at hi
  rw [← hi] at hlow
  exact absurd hlow (by decide)

end Admission.Bin
