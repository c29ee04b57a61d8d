import Admission.Proofs.Histogram.Layout

/-!
# The ranges of histogram bins

A bin holds the values from its own least value up to that of the next bin, and the last bin all the
rest. So every word lies in one bin, and it is told apart from the least value of its bin by less
than its thousandth part.

Bins are found by shifts, sums and differences of words. None of these steps leaves the range of
words: done with exact operations, which give nothing where the true result is no word, they give
the same.

## Main definitions

* `Exact.add`, `Exact.sub`, `Exact.mul`, `Exact.shl`, `Exact.shr`, `Exact.signed`: operations that
  give the true result or none
* `Bin.indexExact`, `Bin.lowExact`, `Bin.totalExact`: the layout of bins, by such operations

## Main results

* `Bin.indexExact_eq`, `Bin.lowExact_eq`, `Bin.totalExact_eq`: no step leaves the range of words
* `Bin.index_eq_iff`: the range of values of a bin
* `Bin.sub_low_lt`: how far a value is above the least value of its bin
* `Bin.bins_tile_words`: all of this
-/

namespace Admission

/-! ## Exact operations -/

namespace Exact

/-- The sum of two words, if it is a word. -/
def add (a b : UInt64) : Option UInt64 := if a.toNat + b.toNat < 2 ^ 64 then some (a + b) else none

/-- The difference of two words, if it is not negative. -/
def sub (a b : UInt64) : Option UInt64 := if b ≤ a then some (a - b) else none

/-- The product of two words, if it is a word. -/
def mul (a b : UInt64) : Option UInt64 := if a.toNat * b.toNat < 2 ^ 64 then some (a * b) else none

/-- A word moved to the left by fewer places than it has, if no digit is lost. -/
def shl (a n : UInt64) : Option UInt64 :=
  if n < 64 ∧ a.toNat * 2 ^ n.toNat < 2 ^ 64 then some (a <<< n) else none

/-- A word moved to the right by fewer places than it has. -/
def shr (a n : UInt64) : Option UInt64 := if n < 64 then some (a >>> n) else none

/-- A number, if it is a signed word. -/
def signed (z : Int) : Option Int := if -2 ^ 63 ≤ z ∧ z < 2 ^ 63 then some z else none

variable {a b n : UInt64}

theorem add_eq (h : a.toNat + b.toNat < 2 ^ 64) : add a b = some (a + b) := if_pos h

theorem sub_eq (h : b.toNat ≤ a.toNat) : sub a b = some (a - b) :=
  if_pos (UInt64.le_iff_toNat_le.mpr h)

theorem mul_eq (h : a.toNat * b.toNat < 2 ^ 64) : mul a b = some (a * b) := if_pos h

theorem shl_eq (hn : n.toNat < 64) (h : a.toNat * 2 ^ n.toNat < 2 ^ 64) :
    shl a n = some (a <<< n) :=
  if_pos ⟨UInt64.lt_iff_toNat_lt.mpr hn, h⟩

theorem shr_eq (hn : n.toNat < 64) : shr a n = some (a >>> n) :=
  if_pos (UInt64.lt_iff_toNat_lt.mpr hn)

theorem signed_eq {z : Int} (hlo : -2 ^ 63 ≤ z) (hhi : z < 2 ^ 63) : signed z = some z :=
  if_pos ⟨hlo, hhi⟩

end Exact

namespace Bin

variable {v w i highest : UInt64}

/-! ## The layout by exact operations -/

/-- The number of zeros before the first digit of a word. -/
def leadingZeros (v : UInt64) : UInt64 := UInt64.ofBitVec v.toBitVec.clz

/-- The number of the bin of a value. -/
def indexExact (v : UInt64) : Option UInt64 := do
  let doublings ← Exact.sub 53 (leadingZeros (v ||| 2047))
  let offset ← Exact.shr v doublings
  let base ← Exact.shl doublings 10
  Exact.add base offset

/-- The least value of the bin with a given number. -/
def lowExact (i : UInt64) : Option UInt64 := do
  let run ← Exact.shr i 10
  let first ← Exact.add (i &&& 1023) 1024
  -- Below zero for the bins of the first run.
  let doublings ← Exact.signed (run.toNat - 1)
  if doublings < 0 then Exact.shl (← Exact.sub first 1024) 0
  else Exact.shl first (UInt64.ofNat doublings.toNat)

/-- How many doublings of the bin width a histogram needs, counted from one; nothing if the doubling
of the first value out of reach does not come to an end. -/
def levelsExact (highest : UInt64) : Option UInt64 :=
  go 64 2048 1
where
  /-- Doubles the first value out of reach until it lies above `highest`. -/
  go : Nat → UInt64 → UInt64 → Option UInt64
    | 0, _, _ => none
    | fuel + 1, beyond, n =>
      if beyond ≤ highest then
        if maxWord / 2 < beyond then Exact.add n 1
        else do go fuel (← Exact.shl beyond 1) (← Exact.add n 1)
      else some n

/-- The number of bins of a histogram. -/
def totalExact (highest : UInt64) : Option UInt64 := do
  Exact.mul (← Exact.add (← levelsExact highest) 1) 1024

theorem leadingZeros_toNat (hv : v ≠ 0) : (leadingZeros v).toNat = 63 - v.toNat.log2 := by
  have hpos : v.toNat ≠ 0 := fun h => hv (UInt64.toNat_inj.mp h)
  have hne : v.toBitVec ≠ 0#64 := fun h => hv (UInt64.toBitVec_inj.mp h)
  have hlt : v.toNat < 2 ^ (64 - (leadingZeros v).toNat) := BitVec.toNat_lt_two_pow_sub_clz
  have hle : 2 ^ (63 - (leadingZeros v).toNat) ≤ v.toNat :=
    BitVec.two_pow_sub_clz_le_toNat_of_ne_zero (by decide) hne
  have hzeros : (leadingZeros v).toNat < 64 := by
    by_contra hno
    rw [show 64 - (leadingZeros v).toNat = 0 by omega] at hlt
    omega
  have hlog : v.toNat.log2 = 63 - (leadingZeros v).toNat := by
    rw [Nat.log2_eq_iff hpos]
    exact ⟨hle, by rwa [show 63 - (leadingZeros v).toNat + 1 =
      64 - (leadingZeros v).toNat by omega]⟩
  omega

/-- A word has at most 53 zeros before its first digit once its last eleven digits are set. -/
theorem sub_leadingZeros (v : UInt64) :
    Exact.sub 53 (leadingZeros (v ||| 2047)) = some (doublings v) := by
  have hor : (v ||| 2047).toNat = v.toNat ||| 2047 := UInt64.toNat_or _ _
  have hlog : (v ||| 2047).toNat.log2 = max v.toNat.log2 10 := by
    rw [hor, log2_or]
  have hne : v ||| 2047 ≠ 0 := by
    intro h
    rw [h] at hlog
    have : (0 : UInt64).toNat.log2 = 0 := by decide
    omega
  have hzeros := leadingZeros_toNat hne
  have h53 : (53 : UInt64).toNat = 53 := rfl
  have hd := doublings_toNat v
  have hd53 := doublings_le v
  have hle : (leadingZeros (v ||| 2047)).toNat ≤ (53 : UInt64).toNat := by omega
  rw [Exact.sub_eq hle, Option.some_inj]
  apply UInt64.toNat_inj.mp
  rw [UInt64.toNat_sub_of_le _ _ (UInt64.le_iff_toNat_le.mpr hle)]
  omega

/-- **No step that finds the bin of a value leaves the range of words.** -/
theorem indexExact_eq (v : UInt64) : indexExact v = some (index v) := by
  have hd := doublings_le v
  have hl := leading_lt v
  have hten : (10 : UInt64).toNat = 10 := rfl
  have hoffset : Exact.shr v (doublings v) = some (v >>> doublings v) := by
    apply Exact.shr_eq
    omega
  have hbase : Exact.shl (doublings v) 10 = some (doublings v <<< 10) := by
    apply Exact.shl_eq
    · decide
    · rw [hten]
      omega
  have hsum : Exact.add (doublings v <<< 10) (v >>> doublings v) = some (index v) := by
    apply Exact.add_eq
    rw [base_toNat, shiftRight_doublings]
    omega
  simp only [indexExact, sub_leadingZeros, hoffset, hbase, hsum, Option.bind_eq_bind,
    Option.bind_some]

/-- **No step that finds the least value of a bin leaves the range of words.** -/
theorem lowExact_eq (h : i.toNat < 56320) : lowExact i = some (low i) := by
  have hk : (1024 : UInt64).toNat = 1024 := rfl
  have hrun := run_toNat i
  have hfirst := first_toNat i
  have hshift : Exact.shr i 10 = some (i >>> 10) := Exact.shr_eq (by decide)
  have hadd : Exact.add (i &&& 1023) 1024 = some ((i &&& 1023) + 1024) := by
    apply Exact.add_eq
    rw [half_toNat, hk]
    omega
  have hsigned : Exact.signed ((i >>> 10).toNat - 1) = some (((i >>> 10).toNat : Int) - 1) := by
    apply Exact.signed_eq
    · omega
    · omega
  simp only [lowExact, hshift, hadd, hsigned, Option.bind_eq_bind, Option.bind_some]
  by_cases hi : i.toNat < 1024
  · have hback : (i &&& 1023) + 1024 - 1024 = i &&& 1023 := UInt64.add_sub_cancel _ _
    have hsub : Exact.sub ((i &&& 1023) + 1024) 1024 = some (i &&& 1023) := by
      rw [Exact.sub_eq (by rw [hfirst, hk]; omega), hback]
    have hstay : Exact.shl (i &&& 1023) 0 = some (i &&& 1023) := by
      rw [Exact.shl_eq (by decide) (by rw [half_toNat]; simp; omega), UInt64.shiftLeft_zero]
    rw [if_pos (by omega), hsub, Option.bind_some, hstay, low, if_pos ((run_eq_zero_iff i).mpr hi)]
  · have hone : (1 : UInt64).toNat = 1 := rfl
    have hle : (1 : UInt64) ≤ i >>> 10 := by
      rw [UInt64.le_iff_toNat_le, hone]
      omega
    have hpred : (i >>> 10 - 1).toNat = i.toNat / 1024 - 1 := by
      rw [UInt64.toNat_sub_of_le _ _ hle, hrun, hone]
    have hdoublings : UInt64.ofNat (((i >>> 10).toNat : Int) - 1).toNat = i >>> 10 - 1 := by
      apply UInt64.toNat_inj.mp
      rw [hpred, UInt64.toNat_ofNat']
      omega
    have hshl : Exact.shl ((i &&& 1023) + 1024) (i >>> 10 - 1) =
        some (((i &&& 1023) + 1024) <<< (i >>> 10 - 1)) := by
      apply Exact.shl_eq
      · omega
      · rw [hfirst, hpred]
        exact first_mul_lt h
    rw [if_neg (by omega), hdoublings, hshl, low, if_neg fun h0 => hi ((run_eq_zero_iff i).mp h0)]

/-- The doubling comes to its end, and none of it leaves the range of words. -/
theorem levelsExact_eq (highest : UInt64) : levelsExact highest = some (levels highest) := by
  have hd := doublings_le highest
  -- As long as the bound is not reached another doubling is a word.
  have hgo : ∀ (fuel k : Nat) (beyond n : UInt64), (doublings highest).toNat < k + fuel →
      k ≤ (doublings highest).toNat → beyond.toNat = 2048 * 2 ^ k → n.toNat = k + 1 →
      levelsExact.go highest fuel beyond n = some (levels.go highest fuel beyond n) := by
    intro fuel
    induction fuel with
    | zero => intros; omega
    | succ fuel ih =>
      intro k beyond n hfuel hk hbeyond hn
      have hone : (1 : UInt64).toNat = 1 := rfl
      have hnext : Exact.add n 1 = some (n + 1) := by
        apply Exact.add_eq
        omega
      rw [levelsExact.go, levels.go]
      by_cases hle : beyond ≤ highest
      · rw [if_pos hle, if_pos hle]
        by_cases hend : maxWord / 2 < beyond
        · rw [if_pos hend, if_pos hend, hnext]
        · have hhalf := lt_of_not_half_lt hend
          have hmore : k < (doublings highest).toNat := by
            rw [lt_doublings_iff, ← hbeyond]
            exact UInt64.le_iff_toNat_le.mp hle
          have hshift : Exact.shl beyond 1 = some (beyond <<< 1) := by
            apply Exact.shl_eq
            · decide
            · rw [hone]
              omega
          have hcount : (n + 1).toNat = k + 1 + 1 := by
            rw [UInt64.toNat_add, hn, hone]
            omega
          simp only [if_neg hend, hshift, hnext, Option.bind_eq_bind, Option.bind_some]
          exact ih (k + 1) _ _ (by omega) hmore (double_toNat hhalf hbeyond) hcount
      · rw [if_neg hle, if_neg hle]
  exact hgo 64 0 2048 1 (by omega) (Nat.zero_le _) rfl rfl

/-- **No step that finds the number of bins leaves the range of words.** -/
theorem totalExact_eq (highest : UInt64) : totalExact highest = some (total highest) := by
  have hd := doublings_le highest
  have hl := levels_toNat highest
  have hone : (1 : UInt64).toNat = 1 := rfl
  have hk : (1024 : UInt64).toNat = 1024 := rfl
  have hadd : Exact.add (levels highest) 1 = some (levels highest + 1) := by
    apply Exact.add_eq
    omega
  have hmul : Exact.mul (levels highest + 1) 1024 = some ((levels highest + 1) * 1024) := by
    apply Exact.mul_eq
    rw [UInt64.toNat_add, hl, hone, hk]
    omega
  simp only [totalExact, levelsExact_eq, hadd, hmul, Option.bind_eq_bind, Option.bind_some]
  rfl

/-! ## Ranges -/

/-- No histogram has more bins than one for all words. -/
theorem lt_of_lt_total (h : i < total highest) : i.toNat < 56320 := by
  have hd := doublings_le highest
  rw [UInt64.lt_iff_toNat_lt, total_toNat] at h
  omega

/-- **A histogram has a bin for each value up to its bound.** -/
theorem index_lt_total_of_le (h : v ≤ highest) : index v < total highest :=
  UInt64.lt_of_le_of_lt (index_le_index h) (index_lt_total highest)

theorem floor_le (v : UInt64) : floor v ≤ v := by
  rw [UInt64.le_iff_toNat_le, floor_toNat]
  exact Nat.div_mul_le_self _ _

theorem low_index_le (v : UInt64) : low (index v) ≤ v := by
  rw [low_index]
  exact floor_le v

/-- A value with at most eleven digits has a bin of its own. -/
theorem low_index_of_lt (h : v < 2048) : low (index v) = v := by
  have h2048 : (2048 : UInt64).toNat = 2048 := rfl
  have hd : (doublings v).toNat = 0 := by
    apply doublings_eq
    · rw [UInt64.lt_iff_toNat_lt, h2048] at h
      omega
    · exact Or.inl rfl
  apply UInt64.toNat_inj.mp
  rw [low_index, floor_toNat, leading, hd, Nat.pow_zero, Nat.div_one, Nat.mul_one]

/-- **A longer value is above the least value of its bin by less than its thousandth part.** -/
theorem sub_low_lt (h : 2048 ≤ v) : (v - low (index v)).toNat < v.toNat / 1024 := by
  have h2048 : (2048 : UInt64).toNat = 2048 := rfl
  have hpos : 0 < (doublings v).toNat := by
    rw [lt_doublings_iff, Nat.pow_zero, Nat.mul_one, ← h2048]
    exact UInt64.le_iff_toNat_le.mp h
  have hsplit := Nat.div_add_mod' v.toNat (2 ^ (doublings v).toNat)
  have hmod := Nat.mod_lt v.toNat (Nat.two_pow_pos (doublings v).toNat)
  have hwide : 2 ^ (doublings v).toNat ≤ v.toNat / 1024 := by
    rw [Nat.le_div_iff_mul_le (by decide), Nat.mul_comm]
    exact le_of_doublings hpos
  rw [UInt64.toNat_sub_of_le _ _ (low_index_le v), low_index, floor_toNat, leading]
  omega

/-- **The values of a bin** are those from its least value up to that of the next bin, and all the
rest if it is the last bin of all. -/
theorem index_eq_iff (h : i.toNat < 56320) :
    index v = i ↔ low i ≤ v ∧ (i + 1 < total maxWord → v < low (i + 1)) := by
  have hone : (1 : UInt64).toNat = 1 := rfl
  have hnext : (i + 1).toNat = i.toNat + 1 := by
    rw [UInt64.toNat_add, hone]
    omega
  constructor
  · rintro rfl
    refine ⟨low_index_le v, fun hlast => ?_⟩
    by_contra hno
    have hle := index_le_index (UInt64.not_lt.mp hno)
    rw [index_low (lt_of_lt_total hlast), UInt64.le_iff_toNat_le] at hle
    omega
  · rintro ⟨hlow, hbelow⟩
    have hge := index_le_index hlow
    rw [index_low h] at hge
    refine UInt64.le_antisymm ?_ hge
    by_contra hno
    rw [UInt64.not_le] at hno
    have hsucc : i + 1 ≤ index v := by
      rw [UInt64.le_iff_toNat_le, hnext]
      exact UInt64.lt_iff_toNat_lt.mp hno
    have hlast : i + 1 < total maxWord :=
      UInt64.lt_of_le_of_lt hsucc (index_lt_total_of_le (le_maxWord v))
    -- A value below the next bin and no longer in this one would have to be in the next one.
    have habove := index_le_index (UInt64.le_of_lt (hbelow hlast))
    rw [index_low (lt_of_lt_total hlast)] at habove
    have hback := low_index_le v
    rw [UInt64.le_antisymm habove hsucc] at hback
    exact UInt64.not_lt.mpr hback (hbelow hlast)

/-- **The bins of histograms tile the words.** Finding the bin of any value, the least value of any
bin and the number of bins for any bound leaves the range of words at no step. A histogram has a bin
for each value up to its bound. Bins are in the order of their values, and each begins at its least
value and goes up to that of the next one. A value below 2048 has a bin of its own, and any other
one is above the least value of its bin by less than its thousandth part. -/
theorem bins_tile_words (highest : UInt64) :
    ((∀ v, indexExact v = some (index v)) ∧ (∀ i < total highest, lowExact i = some (low i)) ∧
      totalExact highest = some (total highest)) ∧
    (∀ v ≤ highest, index v < total highest) ∧
    (∀ v w, v ≤ w → index v ≤ index w) ∧
    (∀ v, low (index v) ≤ v ∧ (v < 2048 → low (index v) = v) ∧
      (2048 ≤ v → (v - low (index v)).toNat < v.toNat / 1024)) ∧
    ∀ i < total highest, index (low i) = i ∧
      ∀ v, index v = i ↔ low i ≤ v ∧ (i + 1 < total maxWord → v < low (i + 1)) := by
  refine ⟨⟨indexExact_eq, ?_, totalExact_eq highest⟩, ?_, ?_, ?_, ?_⟩
  · intro i hi
    exact lowExact_eq (lt_of_lt_total hi)
  · intro v hv
    exact index_lt_total_of_le hv
  · intro v w h
    exact index_le_index h
  · intro v
    exact ⟨low_index_le v, low_index_of_lt, sub_low_lt⟩
  · intro i hi
    exact ⟨index_low (lt_of_lt_total hi), fun v => index_eq_iff (lt_of_lt_total hi)⟩

end Bin

end Admission
