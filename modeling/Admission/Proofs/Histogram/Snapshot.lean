import Admission.Histogram.Basic
import Admission.Proofs.Histogram.Bins
import Admission.Proofs.Histogram.Layout
import Admission.Proofs.Word
import Mathlib.Data.List.Basic
import Mathlib.Logic.Function.Iterate

/-!
# Snapshots of histograms

A snapshot records the least value of each bin as often as the bin was counted in. That value has
the same bin again, and the distribution has all bins of the histogram, so no count is lost: the
snapshot agrees with the distribution into which the values were recorded themselves. What is told
of a value beyond its bin is the one thing that it cannot keep: the largest word stands for its own
end, and the least value of its bin does not.

## Main definitions

* `Histogram.Sound`: the bins of a histogram are in order and within its bound
* `Histogram.recordAll`, `Histogram.direct`: values recorded into a histogram, and one at a time
  into a distribution
* `Distribution.Tight`: the least and the greatest value of a distribution are those of its bins

## Main results

* `Histogram.Sound.bins_snapshot`: a snapshot has the counts of the histogram
* `Histogram.bins_direct`: so has the distribution of the same values
* `Distribution.Tight.min_eq`, `Distribution.Tight.max_eq`: distributions with the same counts
* `Histogram.min_of_forall_eq_maxWord`: the least value where only the largest word was recorded
* `Histogram.snapshot_direct`: a snapshot and the distribution of the same values
-/

namespace Admission

/-! ## Distributions -/

namespace Distribution

variable {d d' : Distribution} {v n highest : UInt64} {l : List (UInt64 × UInt64)}

/-- Records values, each as often as it comes. -/
def recordAll (d : Distribution) (l : List (UInt64 × UInt64)) : Distribution :=
  l.foldl (fun d e => d.record e.1 e.2) d

@[simp] theorem highest_record : (d.record v n).highest = d.highest := by
  unfold record
  split <;> rfl

theorem record_of_lt (h : Bin.index v < Bin.total d.highest) :
    d.record v n =
      { d with
        bins := d.bins.alter (Bin.index v) (addSat · n)
        least := if v ≠ 0 ∧ v < d.least then v else d.least
        greatest := if d.greatest < v then v else d.greatest } := if_pos h

theorem bins_recordAll (h : ∀ e ∈ l, Bin.index e.1 < Bin.total d.highest) :
    (d.recordAll l).bins = l.foldl (fun b e => b.alter (Bin.index e.1) (addSat · e.2)) d.bins := by
  induction l generalizing d with
  | nil => rfl
  | cons e l ih =>
    show ((d.record e.1 e.2).recordAll l).bins = _
    rw [ih]
    · rw [record_of_lt (h e List.mem_cons_self), List.foldl_cons]
    · intro e' he'
      rw [highest_record]
      exact h e' (List.mem_cons_of_mem e he')

/-! ### One value many times -/

theorem addSat_addSat_one {x k : UInt64} (h : k.toNat + 1 < 2 ^ 64) :
    addSat (addSat x k) 1 = addSat x (k + 1) := by
  have hm : maxWord.toNat = 2 ^ 64 - 1 := rfl
  have hone : (1 : UInt64).toNat = 1 := rfl
  apply UInt64.toNat_inj.mp
  rw [addSat_toNat, addSat_toNat, addSat_toNat, UInt64.toNat_add, hm, hone]
  omega

/-- A value that is recorded once more. -/
theorem record_record_one (h : n.toNat + 1 < 2 ^ 64) :
    (d.record v n).record v 1 = d.record v (n + 1) := by
  by_cases hv : Bin.index v < Bin.total d.highest
  · have hagain : Bin.index v < Bin.total (d.record v n).highest := by rwa [highest_record]
    rw [record_of_lt hagain, record_of_lt hv, record_of_lt hv]
    dsimp only
    rw [Bins.alter_alter]
    simp only [addSat_addSat_one h]
    congr 1
    · split
      · rw [if_neg fun h => UInt64.lt_irrefl v h.2]
      · rfl
    · split
      · rw [if_neg (UInt64.lt_irrefl v)]
      · rfl
  · have hsame (d' : Distribution) (hd : d'.highest = d.highest) (k : UInt64) :
        d'.record v k = d' :=
      if_neg (by rwa [hd])
    rw [hsame d rfl, hsame d rfl, hsame d rfl]

/-- To record a value many times is to record it one at a time. -/
theorem record_iterate (d : Distribution) (v : UInt64) (hn : n ≠ 0) :
    (·.record v 1)^[n.toNat] d = d.record v n := by
  have hall : ∀ k : Nat, k + 1 < 2 ^ 64 → (·.record v 1)^[k + 1] d =
      d.record v (UInt64.ofNat (k + 1)) := by
    intro k
    induction k with
    | zero => intro _; rfl
    | succ k ih =>
      intro hk
      have hprev : (UInt64.ofNat (k + 1)).toNat = k + 1 := by
        rw [UInt64.toNat_ofNat']
        omega
      rw [Function.iterate_succ_apply', ih (by omega), record_record_one (by omega),
        ← UInt64.ofNat_one, ← UInt64.ofNat_add]
  have hpos : n.toNat ≠ 0 := fun h => hn (UInt64.toNat_inj.mp h)
  have hlast := hall (n.toNat - 1) (by have := n.toNat_lt; omega)
  rwa [Nat.sub_add_cancel (Nat.pos_of_ne_zero hpos), UInt64.ofNat_toNat] at hlast

/-! ### The least and the greatest value -/

/-- The least and the greatest value that were recorded are in the first and in the last bin that is
counted in. The value zero does not count as least. -/
structure Tight (d : Distribution) : Prop where
  ascending : d.bins.Ascending
  least_le {i : UInt64} (h : d.bins.get i ≠ 0) (hi : i ≠ 0) : Bin.index d.least ≤ i
  least_met : (d.least = maxWord ∧ ∀ i, i ≠ 0 → d.bins.get i = 0) ∨
    (d.least ≠ 0 ∧ d.bins.get (Bin.index d.least) ≠ 0)
  le_greatest {i : UInt64} (h : d.bins.get i ≠ 0) : i ≤ Bin.index d.greatest
  greatest_met : d.greatest = 0 ∨ d.bins.get (Bin.index d.greatest) ≠ 0

theorem tight_empty (highest : UInt64) : (empty highest).Tight where
  ascending := Bins.ascending_empty
  least_le h := absurd rfl h
  least_met := Or.inl ⟨rfl, fun _ _ => rfl⟩
  le_greatest h := absurd rfl h
  greatest_met := Or.inl rfl

theorem addSat_ne_zero {x : UInt64} (hn : n ≠ 0) : addSat x n ≠ 0 := by
  intro h
  have hm : maxWord.toNat = 2 ^ 64 - 1 := rfl
  have hsum := addSat_toNat x n
  rw [h, hm] at hsum
  have hzero : (0 : UInt64).toNat = 0 := rfl
  exact hn (UInt64.toNat_inj.mp (by omega))

theorem ascending_record (hd : d.bins.Ascending) : (d.record v n).bins.Ascending := by
  unfold record
  split
  · exact hd.alter _ _
  · exact hd

section Record

variable (hv : Bin.index v < Bin.total d.highest)
include hv

/-- A value counts in its own bin. -/
theorem get_record_ne_zero_iff {i : UInt64} (hd : d.bins.Ascending) (hn : n ≠ 0) :
    (d.record v n).bins.get i ≠ 0 ↔ d.bins.get i ≠ 0 ∨ Bin.index v = i := by
  rw [record_of_lt hv]
  dsimp only
  rw [hd.get_alter]
  by_cases hi : i = Bin.index v
  · rw [if_pos hi]
    exact ⟨fun _ => Or.inr hi.symm, fun _ => addSat_ne_zero hn⟩
  · rw [if_neg hi]
    exact ⟨Or.inl, fun hor => hor.resolve_right fun hi' => hi hi'.symm⟩

/-- The least value lies in no later bin than before, and in no later bin than a new value, unless
that is zero. -/
theorem index_least_record_le :
    Bin.index (d.record v n).least ≤ Bin.index d.least ∧
      (v ≠ 0 → Bin.index (d.record v n).least ≤ Bin.index v) := by
  rw [record_of_lt hv]
  dsimp only
  split
  · rename_i hless
    exact ⟨Bin.index_le_index (UInt64.le_of_lt hless.2), fun _ => UInt64.le_refl _⟩
  · rename_i hnot
    exact ⟨UInt64.le_refl _, fun hzero =>
      Bin.index_le_index (UInt64.not_lt.mp fun hless => hnot ⟨hzero, hless⟩)⟩

/-- The greatest value lies in no earlier bin than before, and in no earlier bin than a new
value. -/
theorem le_index_greatest_record :
    Bin.index d.greatest ≤ Bin.index (d.record v n).greatest ∧
      Bin.index v ≤ Bin.index (d.record v n).greatest := by
  rw [record_of_lt hv]
  dsimp only
  split
  · rename_i hless
    exact ⟨Bin.index_le_index (UInt64.le_of_lt hless), UInt64.le_refl _⟩
  · rename_i hnot
    exact ⟨UInt64.le_refl _, Bin.index_le_index (UInt64.not_lt.mp hnot)⟩

theorem Tight.least_met_record (h : d.Tight) (hn : n ≠ 0) :
    ((d.record v n).least = maxWord ∧ ∀ i, i ≠ 0 → (d.record v n).bins.get i = 0) ∨
      ((d.record v n).least ≠ 0 ∧
        (d.record v n).bins.get (Bin.index (d.record v n).least) ≠ 0) := by
  have hget {i : UInt64} := get_record_ne_zero_iff (i := i) hv h.ascending hn
  have hself := hget.mpr (Or.inr rfl)
  have hleast : (d.record v n).least = if v ≠ 0 ∧ v < d.least then v else d.least := by
    rw [record_of_lt hv]
  rw [hleast]
  split
  · rename_i hless
    exact Or.inr ⟨hless.1, hself⟩
  · rename_i hnot
    rcases h.least_met with ⟨hend, hnone⟩ | ⟨hne, hmet⟩
    · -- Only zero had been recorded, and what comes is zero or the largest word.
      by_cases hzero : v = 0
      · refine Or.inl ⟨hend, fun i hi => Classical.not_not.mp fun hcounted => ?_⟩
        rcases hget.mp hcounted with hbefore | rfl
        · exact hbefore (hnone i hi)
        · exact hi (Bin.index_eq_zero_iff.mpr hzero)
      · have hlast : v = maxWord := UInt64.le_antisymm (le_maxWord v) (UInt64.not_lt.mp fun hlt =>
          hnot ⟨hzero, hend ▸ hlt⟩)
        refine Or.inr ⟨by rw [hend]; decide, ?_⟩
        rw [hend, ← hlast]
        exact hself
    · exact Or.inr ⟨hne, hget.mpr (Or.inl hmet)⟩

theorem Tight.greatest_met_record (h : d.Tight) (hn : n ≠ 0) :
    (d.record v n).greatest = 0 ∨
      (d.record v n).bins.get (Bin.index (d.record v n).greatest) ≠ 0 := by
  have hget {i : UInt64} := get_record_ne_zero_iff (i := i) hv h.ascending hn
  have hgreatest : (d.record v n).greatest = if d.greatest < v then v else d.greatest := by
    rw [record_of_lt hv]
  rw [hgreatest]
  split
  · exact Or.inr (hget.mpr (Or.inr rfl))
  · exact h.greatest_met.imp_right fun hmet => hget.mpr (Or.inl hmet)

end Record

theorem Tight.record (h : d.Tight) (v : UInt64) (hn : n ≠ 0) : (d.record v n).Tight := by
  by_cases hv : Bin.index v < Bin.total d.highest
  · obtain ⟨hleast, hleastv⟩ := index_least_record_le (n := n) hv
    obtain ⟨hgreatest, hgreatestv⟩ := le_index_greatest_record (n := n) hv
    refine ⟨ascending_record h.ascending, fun {i} hi hzero => ?_, h.least_met_record hv hn,
      fun {i} hi => ?_, h.greatest_met_record hv hn⟩
    · rcases (get_record_ne_zero_iff hv h.ascending hn).mp hi with hbefore | rfl
      · exact UInt64.le_trans hleast (h.least_le hbefore hzero)
      · exact hleastv fun hv => hzero (Bin.index_eq_zero_iff.mpr hv)
    · rcases (get_record_ne_zero_iff hv h.ascending hn).mp hi with hbefore | rfl
      · exact UInt64.le_trans (h.le_greatest hbefore) hgreatest
      · exact hgreatestv
  · rwa [Distribution.record, if_neg hv]

theorem Tight.recordAll (h : d.Tight) (hn : ∀ e ∈ l, e.2 ≠ 0) : (d.recordAll l).Tight := by
  induction l generalizing d with
  | nil => exact h
  | cons e l ih =>
    exact ih (h.record e.1 (hn e List.mem_cons_self)) fun e' he' =>
      hn e' (List.mem_cons_of_mem e he')

/-- Distributions with the same counts have their least values in the same bin. -/
theorem Tight.index_least_eq (h : d.Tight) (h' : d'.Tight)
    (hget : ∀ i, d.bins.get i = d'.bins.get i) (hsome : ∃ i, i ≠ 0 ∧ d.bins.get i ≠ 0) :
    Bin.index d.least = Bin.index d'.least := by
  have hle {d d' : Distribution} (h : d.Tight) (h' : d'.Tight)
      (hget : ∀ i, d.bins.get i = d'.bins.get i) (hsome : ∃ i, i ≠ 0 ∧ d.bins.get i ≠ 0) :
      Bin.index d.least ≤ Bin.index d'.least := by
    obtain ⟨i, hi, hne⟩ := hsome
    rcases h'.least_met with ⟨-, hnone⟩ | ⟨hzero, hmet⟩
    · exact absurd ((hget i).trans (hnone i hi)) hne
    · exact h.least_le (by rwa [hget]) fun h => hzero (Bin.index_eq_zero_iff.mp h)
  refine UInt64.le_antisymm (hle h h' hget hsome) (hle h' h (fun i => (hget i).symm) ?_)
  obtain ⟨i, hi, hne⟩ := hsome
  exact ⟨i, hi, by rwa [← hget]⟩

theorem isEmpty_eq_false (h : d.bins.sum ≠ 0) : d.isEmpty = false := by
  refine beq_eq_false_iff_ne.mpr fun hzero => h ?_
  have hcount := congrArg UInt64.toNat hzero
  rw [count, ofNatSat_toNat] at hcount
  have hnone : (0 : UInt64).toNat = 0 := rfl
  omega

/-- If zero was not recorded, the least value is the least one other than zero. -/
theorem min_eq_minNonZero (hsum : d.bins.sum ≠ 0) (hfirst : d.bins.get 0 = 0) :
    d.min = d.minNonZero := by
  refine if_neg (not_or.mpr ⟨?_, not_not_intro hfirst⟩)
  rw [isEmpty_eq_false hsum]
  exact Bool.false_ne_true

theorem minNonZero_eq_floor (h : Bin.index d.least = Bin.index v) (hd : d.least ≠ maxWord) :
    d.minNonZero = Bin.floor v := by
  rw [minNonZero, if_neg hd, Bin.floor_eq_of_index_eq h]

/-- Distributions with the same counts have the same least value, unless it is the largest word. -/
theorem Tight.min_eq (h : d.Tight) (h' : d'.Tight) (hget : ∀ i, d.bins.get i = d'.bins.get i)
    (hsum : d.bins.sum = d'.bins.sum)
    (hleast : d.bins.sum ≠ 0 → d.bins.get 0 = 0 → d.least ≠ maxWord ∧ d'.least ≠ maxWord) :
    d.min = d'.min := by
  by_cases hzero : d.isEmpty ∨ d.bins.get 0 ≠ 0
  · have hzero' : d'.isEmpty ∨ d'.bins.get 0 ≠ 0 := by
      rwa [isEmpty, count, ← hsum, ← hget 0]
    rw [Distribution.min, Distribution.min, if_pos hzero, if_pos hzero']
  · obtain ⟨hnonempty, hfirst⟩ := not_or.mp hzero
    have hpos : d.bins.sum ≠ 0 := by
      intro hz
      apply hnonempty
      rw [isEmpty, count, hz]
      rfl
    have hfirst : d.bins.get 0 = 0 := Classical.not_not.mp hfirst
    obtain ⟨i, hi⟩ := h.ascending.exists_get_ne_zero hpos
    have hsome : i ≠ 0 := by
      rintro rfl
      exact hi hfirst
    obtain ⟨hd, hd'⟩ := hleast hpos hfirst
    rw [min_eq_minNonZero hpos hfirst, min_eq_minNonZero (hsum ▸ hpos) (hget 0 ▸ hfirst),
      minNonZero_eq_floor (h.index_least_eq h' hget ⟨i, hsome, hi⟩) hd,
      minNonZero_eq_floor rfl hd']

/-- Distributions with the same counts have their greatest values in the same bin. -/
theorem Tight.index_greatest_eq (h : d.Tight) (h' : d'.Tight)
    (hget : ∀ i, d.bins.get i = d'.bins.get i) : Bin.index d.greatest = Bin.index d'.greatest := by
  have hle {d d' : Distribution} (h : d.Tight) (h' : d'.Tight)
      (hget : ∀ i, d.bins.get i = d'.bins.get i) :
        Bin.index d.greatest ≤ Bin.index d'.greatest := by
    rcases h.greatest_met with hzero | hmet
    · rw [hzero]
      exact UInt64.zero_le
    · exact h'.le_greatest (by rwa [← hget])
  exact UInt64.le_antisymm (hle h h' hget) (hle h' h fun i => (hget i).symm)

/-- The greatest value of a distribution is told by its bin, unless it is the largest word. -/
theorem max_eq_of_index_eq (h : Bin.index d.greatest = Bin.index v) (hd : d.greatest ≠ maxWord)
    (hv : v ≠ 0) : d.max = addSat (Bin.floor v) (Bin.width v) - 1 := by
  have hzero : d.greatest ≠ 0 := by
    intro hz
    rw [hz] at h
    exact hv (Bin.index_eq_zero_iff.mp h.symm)
  rw [Distribution.max, if_neg hzero, Bin.high, if_neg hd, Bin.floor_eq_of_index_eq h,
    Bin.width_eq_of_index_eq h]

/-- Distributions with the same counts have the same greatest value, unless it is the largest
word. -/
theorem Tight.max_eq (h : d.Tight) (h' : d'.Tight) (hget : ∀ i, d.bins.get i = d'.bins.get i)
    (hd : d.greatest ≠ maxWord) (hd' : d'.greatest ≠ maxWord) : d.max = d'.max := by
  have hindex := h.index_greatest_eq h' hget
  by_cases hzero : d'.greatest = 0
  · rw [hzero] at hindex
    rw [Distribution.max, Distribution.max, if_pos hzero, if_pos (Bin.index_eq_zero_iff.mp hindex)]
  · rw [max_eq_of_index_eq hindex hd hzero, max_eq_of_index_eq rfl hd' hzero]

/-- The largest word is the greatest value if it was recorded. -/
theorem greatest_record_eq_maxWord_iff (hv : Bin.index v < Bin.total d.highest) :
    (d.record v n).greatest = maxWord ↔ d.greatest = maxWord ∨ v = maxWord := by
  have hm : maxWord.toNat = 2 ^ 64 - 1 := rfl
  have hd := d.greatest.toNat_lt
  have hvlt := v.toNat_lt
  rw [record_of_lt hv]
  dsimp only
  rw [← UInt64.toNat_inj, ← UInt64.toNat_inj, ← UInt64.toNat_inj, hm]
  split
  · rename_i hlt
    rw [UInt64.lt_iff_toNat_lt] at hlt
    omega
  · rename_i hnot
    rw [UInt64.lt_iff_toNat_lt] at hnot
    omega

theorem greatest_recordAll_eq_maxWord_iff (h : ∀ e ∈ l, Bin.index e.1 < Bin.total d.highest) :
    (d.recordAll l).greatest = maxWord ↔ d.greatest = maxWord ∨ ∃ e ∈ l, e.1 = maxWord := by
  induction l generalizing d with
  | nil => simp [recordAll]
  | cons e l ih =>
    have hmore : ∀ e' ∈ l, Bin.index e'.1 < Bin.total (d.record e.1 e.2).highest := by
      intro e' he'
      rw [highest_record]
      exact h e' (List.mem_cons_of_mem e he')
    show ((d.record e.1 e.2).recordAll l).greatest = maxWord ↔ _
    rw [ih hmore, greatest_record_eq_maxWord_iff (h e List.mem_cons_self), List.exists_mem_cons_iff,
      or_assoc]

/-- Nothing replaces the largest word as the least value but a smaller value other than zero. -/
theorem least_record_eq_maxWord_iff (hv : Bin.index v < Bin.total d.highest) :
    (d.record v n).least = maxWord ↔ d.least = maxWord ∧ (v = 0 ∨ v = maxWord) := by
  rw [record_of_lt hv]
  dsimp only
  split
  · rename_i hlt
    obtain ⟨hzero, hlt⟩ := hlt
    constructor
    · rintro rfl
      exact absurd hlt (UInt64.not_lt.mpr (le_maxWord d.least))
    · rintro ⟨hd, rfl | rfl⟩
      · exact absurd rfl hzero
      · exact absurd hlt (UInt64.not_lt.mpr (le_maxWord d.least))
  · rename_i hnot
    refine ⟨fun hd => ⟨hd, ?_⟩, fun h => h.1⟩
    by_cases hzero : v = 0
    · exact Or.inl hzero
    · refine Or.inr (UInt64.le_antisymm (le_maxWord v) (UInt64.not_lt.mp fun hlt =>
        hnot ⟨hzero, ?_⟩))
      rwa [hd]

theorem least_recordAll_eq_maxWord_iff (h : ∀ e ∈ l, Bin.index e.1 < Bin.total d.highest) :
    (d.recordAll l).least = maxWord ↔
      d.least = maxWord ∧ ∀ e ∈ l, e.1 = 0 ∨ e.1 = maxWord := by
  induction l generalizing d with
  | nil => simp [recordAll]
  | cons e l ih =>
    have hmore : ∀ e' ∈ l, Bin.index e'.1 < Bin.total (d.record e.1 e.2).highest := by
      intro e' he'
      rw [highest_record]
      exact h e' (List.mem_cons_of_mem e he')
    show ((d.record e.1 e.2).recordAll l).least = maxWord ↔ _
    rw [ih hmore, least_record_eq_maxWord_iff (h e List.mem_cons_self), List.forall_mem_cons,
      and_assoc]

/-- A bin is counted in if it was before or one of the values belongs to it. -/
theorem get_recordAll_ne_zero_iff {i : UInt64} (hd : d.bins.Ascending)
    (h : ∀ e ∈ l, e.2 ≠ 0 ∧ Bin.index e.1 < Bin.total d.highest) :
    (d.recordAll l).bins.get i ≠ 0 ↔ d.bins.get i ≠ 0 ∨ ∃ e ∈ l, Bin.index e.1 = i := by
  induction l generalizing d with
  | nil => simp [recordAll]
  | cons e l ih =>
    obtain ⟨⟨hn, hv⟩, hl⟩ := List.forall_mem_cons.mp h
    have hmore : ∀ e' ∈ l, e'.2 ≠ 0 ∧ Bin.index e'.1 < Bin.total (d.record e.1 e.2).highest := by
      rwa [highest_record]
    show ((d.record e.1 e.2).recordAll l).bins.get i ≠ 0 ↔ _
    rw [ih (ascending_record hd) hmore, get_record_ne_zero_iff hv hd hn, List.exists_mem_cons_iff,
      or_assoc]

end Distribution

/-! ## Histograms -/

namespace Histogram

variable {h : Histogram} {highest v n : UInt64} {records : List (UInt64 × UInt64)}

/-- The bins of a histogram are in ascending order, none lies above the bin of its bound, and its
size is the sum of its counts, which goes around the end of the words with them. -/
structure Sound (h : Histogram) : Prop where
  ascending : h.bins.Ascending
  le_highest {e : UInt64 × UInt64} (he : e ∈ h.bins.cells) : e.1 ≤ Bin.index h.highest
  size_eq : h.size = UInt64.ofNat h.bins.sum

theorem sound_empty (highest : UInt64) : (empty highest).Sound where
  ascending := Bins.ascending_empty
  le_highest he := nomatch he
  size_eq := rfl

theorem record_eq (h : Histogram) (v n : UInt64) :
    h.record v n =
      { h with
        bins := h.bins.alter (Bin.index (min v h.highest)) (· + n), size := h.size + n } := by
  have hmin : (if h.highest < v then h.highest else v) = min v h.highest := by
    show _ = if v ≤ h.highest then v else h.highest
    by_cases hlt : h.highest < v
    · rw [if_pos hlt, if_neg (UInt64.not_le.mpr hlt)]
    · rw [if_neg hlt, if_pos (UInt64.not_lt.mp hlt)]
  rw [record, hmin]

theorem min_le (v highest : UInt64) : min v highest ≤ highest := by
  show (if v ≤ highest then v else highest) ≤ highest
  split
  · assumption
  · exact UInt64.le_refl highest

theorem index_min_lt_total (v highest : UInt64) : Bin.index (min v highest) < Bin.total highest :=
  UInt64.lt_of_le_of_lt (Bin.index_le_index (min_le v highest)) (Bin.index_lt_total highest)

theorem Sound.record (hs : h.Sound) (v n : UInt64) : (h.record v n).Sound := by
  rw [record_eq]
  refine ⟨hs.ascending.alter _ _, fun {e} he => ?_, ?_⟩
  · rcases Bins.mem_alter he with heq | he
    · rw [heq]
      exact Bin.index_le_index (min_le v h.highest)
    · exact hs.le_highest he
  · have hsum := hs.ascending.sum_alter (Bin.index (min v h.highest)) (· + n)
    have hsize := congrArg UInt64.toNat hs.size_eq
    rw [UInt64.toNat_add] at hsum
    rw [UInt64.toNat_ofNat'] at hsize
    apply UInt64.toNat_inj.mp
    rw [UInt64.toNat_add, UInt64.toNat_ofNat', hsize]
    dsimp only
    omega

/-- A bin that is counted in is found again from its least value. -/
theorem Sound.index_low (hs : h.Sound) {e : UInt64 × UInt64} (he : e ∈ h.bins.cells) :
    Bin.index (Bin.low e.1) = e.1 := by
  have hle := hs.le_highest he
  rw [UInt64.le_iff_toNat_le] at hle
  exact Bin.index_low (Nat.lt_of_le_of_lt hle (Bin.index_lt h.highest))

/-- A distribution for the same bound has all the bins of a histogram. -/
theorem Sound.lt_total (hs : h.Sound) {e : UInt64 × UInt64} (he : e ∈ h.bins.cells) :
    e.1 < Bin.total (Distribution.empty h.highest).highest := by
  have hle : h.highest ≤ (Distribution.empty h.highest).highest := by
    show h.highest ≤ if h.highest < 2 then 2 else h.highest
    split
    · exact UInt64.le_of_lt ‹_›
    · exact UInt64.le_refl _
  exact UInt64.lt_of_le_of_lt (UInt64.le_trans (hs.le_highest he) (Bin.index_le_index hle))
    (Bin.index_lt_total _)

theorem snapshot_eq (h : Histogram) :
    h.snapshot =
      (Distribution.empty h.highest).recordAll (h.bins.entries.map fun e =>
        (Bin.low e.1, e.2)) := by
  rw [Distribution.recordAll, List.foldl_map]
  rfl

theorem Sound.mem_replayed (hs : h.Sound) {e : UInt64 × UInt64}
    (he : e ∈ h.bins.entries.map fun e => (Bin.low e.1, e.2)) :
    e.2 ≠ 0 ∧ e.1 ≠ maxWord ∧ Bin.index e.1 < Bin.total (Distribution.empty h.highest).highest := by
  obtain ⟨e, hmem, rfl⟩ := List.mem_map.mp he
  obtain ⟨hcell, hne⟩ := List.mem_filter.mp hmem
  have hindex := hs.index_low hcell
  have hlt := Bin.index_lt (Bin.low e.1)
  rw [hindex] at hlt
  refine ⟨bne_iff_ne.mp hne, Bin.low_ne_maxWord hlt, ?_⟩
  dsimp only
  rw [hindex]
  exact hs.lt_total hcell

/-- A snapshot has the counts of the histogram. -/
theorem Sound.bins_snapshot (hs : h.Sound) : h.snapshot.bins = ⟨h.bins.entries⟩ := by
  rw [snapshot_eq, Distribution.bins_recordAll fun e he => (hs.mem_replayed he).2.2, List.foldl_map]
  refine Eq.trans ?_ (Bins.foldl_alter hs.ascending.entries)
  apply List.foldl_ext
  intro b e he
  dsimp only
  rw [hs.index_low (List.mem_filter.mp he).1]

theorem Sound.tight_snapshot (hs : h.Sound) : h.snapshot.Tight := by
  rw [snapshot_eq]
  exact (Distribution.tight_empty _).recordAll fun e he => (hs.mem_replayed he).1

/-- No bin begins with the largest word, so a snapshot does not record it. -/
theorem Sound.greatest_snapshot_ne (hs : h.Sound) : h.snapshot.greatest ≠ maxWord := by
  rw [snapshot_eq]
  intro hgreatest
  rw [Distribution.greatest_recordAll_eq_maxWord_iff fun e he =>
    (hs.mem_replayed he).2.2] at hgreatest
  rcases hgreatest with hzero | ⟨e, he, hend⟩
  · have hempty : (0 : UInt64) = maxWord := hzero
    exact absurd hempty (by decide)
  · exact (hs.mem_replayed he).2.1 hend

/-- Neither is it the least value of a snapshot in which more than the first bin is counted in. -/
theorem Sound.least_snapshot_ne (hs : h.Sound) {i : UInt64} (hi : i ≠ 0)
    (hget : h.snapshot.bins.get i ≠ 0) : h.snapshot.least ≠ maxWord := by
  rw [hs.bins_snapshot] at hget
  rw [snapshot_eq]
  intro hleast
  rw [Distribution.least_recordAll_eq_maxWord_iff fun e he => (hs.mem_replayed he).2.2] at hleast
  refine hget (Bins.get_eq_zero fun e he => ?_)
  have hcell := (List.mem_filter.mp he).1
  have hmem := List.mem_map_of_mem (f := fun e : UInt64 × UInt64 => (Bin.low e.1, e.2)) he
  have hzero : Bin.low e.1 = 0 := (hleast.2 _ hmem).resolve_right (hs.mem_replayed hmem).2.1
  have hfirst := hs.index_low hcell
  rw [hzero, Bin.index_eq_zero_iff.mpr rfl] at hfirst
  exact fun h => hi (h.symm.trans hfirst.symm)

/-! ### The same values recorded directly -/

/-- Counts values, each as often as it comes. -/
def recordAll (h : Histogram) (records : List (UInt64 × UInt64)) : Histogram :=
  records.foldl (fun h r => h.record r.1 r.2) h

/-- The distribution into which values up to a bound are recorded one at a time, and larger ones as
the bound. -/
def direct (highest : UInt64) (records : List (UInt64 × UInt64)) : Distribution :=
  records.foldl (fun d r => (·.record (min r.1 highest) 1)^[r.2.toNat] d) (.empty highest)

@[simp] theorem highest_recordAll : (h.recordAll records).highest = h.highest := by
  induction records generalizing h with
  | nil => rfl
  | cons r records ih => exact ih

theorem Sound.recordAll (hs : h.Sound) (records : List (UInt64 × UInt64)) :
    (h.recordAll records).Sound := by
  induction records generalizing h with
  | nil => exact hs
  | cons r records ih => exact ih (hs.record r.1 r.2)

/-- Counts that do not reach the end of their range are those of a distribution. -/
theorem Sound.bins_record (hs : h.Sound) (hfits : h.bins.sum + n.toNat < 2 ^ 64) :
    (h.record v n).bins = h.bins.alter (Bin.index (min v h.highest)) (addSat · n) ∧
      (h.record v n).bins.sum = h.bins.sum + n.toNat := by
  have hm : maxWord.toNat = 2 ^ 64 - 1 := rfl
  have hle := hs.ascending.get_le_sum (Bin.index (min v h.highest))
  have hsum := hs.ascending.sum_alter (Bin.index (min v h.highest)) (· + n)
  rw [record_eq]
  dsimp only at hsum ⊢
  constructor
  · apply hs.ascending.alter_congr
    apply UInt64.toNat_inj.mp
    rw [UInt64.toNat_add, addSat_toNat, hm]
    omega
  · rw [UInt64.toNat_add] at hsum
    omega

theorem Sound.bins_recordAll (hs : h.Sound) (records : List (UInt64 × UInt64))
    (hfits : h.bins.sum + (records.map (·.2.toNat)).sum < 2 ^ 64) :
    (h.recordAll records).bins =
        (records.map fun r => (min r.1 h.highest, r.2)).foldl
          (fun b e => b.alter (Bin.index e.1) (addSat · e.2)) h.bins ∧
      (h.recordAll records).bins.sum = h.bins.sum + (records.map (·.2.toNat)).sum := by
  induction records generalizing h with
  | nil => exact ⟨rfl, rfl⟩
  | cons r records ih =>
    rw [List.map_cons, List.sum_cons] at hfits
    obtain ⟨hbins, hsum⟩ := hs.bins_record (v := r.1) (n := r.2) (by omega)
    obtain ⟨hrest, htotal⟩ := ih (hs.record r.1 r.2) (by omega)
    rw [List.map_cons, List.map_cons, List.sum_cons, List.foldl_cons]
    rw [hbins] at hrest
    exact ⟨hrest, by rw [← Nat.add_assoc, ← hsum]; exact htotal⟩

theorem direct_eq (hn : ∀ r ∈ records, r.2 ≠ 0) :
    direct highest records =
      (Distribution.empty highest).recordAll (records.map fun r => (min r.1 highest, r.2)) := by
  rw [Distribution.recordAll, List.foldl_map]
  apply List.foldl_ext
  intro d r hr
  exact d.record_iterate _ (hn r hr)

theorem eq_of_make (hmake : make highest = .ok h) : h = empty highest ∧ 2 ≤ highest := by
  unfold make require at hmake
  by_cases hbound : 2 ≤ highest
  · rw [if_pos hbound] at hmake
    cases hmake
    exact ⟨rfl, hbound⟩
  · rw [if_neg hbound] at hmake
    cases hmake

section Direct

variable (hbound : 2 ≤ highest) (hn : ∀ r ∈ records, r.2 ≠ 0)
include hbound hn

theorem mem_direct {e : UInt64 × UInt64} (he : e ∈ records.map fun r => (min r.1 highest, r.2)) :
    e.2 ≠ 0 ∧ Bin.index e.1 < Bin.total (Distribution.empty highest).highest := by
  have hhighest : (Distribution.empty highest).highest = highest :=
    if_neg (UInt64.not_lt.mpr hbound)
  obtain ⟨r, hr, rfl⟩ := List.mem_map.mp he
  rw [hhighest]
  exact ⟨hn r hr, index_min_lt_total r.1 highest⟩

/-- Values that are recorded directly have the counts of a histogram of them. -/
theorem bins_direct (hfits : (records.map (·.2.toNat)).sum < 2 ^ 64) :
    (direct highest records).bins = ((empty highest).recordAll records).bins ∧
      (direct highest records).bins.sum = (records.map (·.2.toNat)).sum := by
  have hzero : (empty highest).bins.sum = 0 := rfl
  obtain ⟨hbins, hsum⟩ := (sound_empty highest).bins_recordAll records (by rw [hzero]; omega)
  rw [hzero, Nat.zero_add] at hsum
  have hdirect : (direct highest records).bins = ((empty highest).recordAll records).bins := by
    rw [direct_eq hn, Distribution.bins_recordAll fun e he => (mem_direct hbound hn he).2]
    exact hbins.symm
  exact ⟨hdirect, hdirect ▸ hsum⟩

theorem tight_direct : (direct highest records).Tight := by
  rw [direct_eq hn]
  exact (Distribution.tight_empty _).recordAll fun e he => (mem_direct hbound hn he).1

theorem greatest_direct_iff :
    (direct highest records).greatest = maxWord ↔ ∃ r ∈ records, min r.1 highest = maxWord := by
  rw [direct_eq hn,
    Distribution.greatest_recordAll_eq_maxWord_iff fun e he => (mem_direct hbound hn he).2]
  constructor
  · rintro (hzero | ⟨e, he, hend⟩)
    · have hempty : (0 : UInt64) = maxWord := hzero
      exact absurd hempty (by decide)
    · obtain ⟨r, hr, rfl⟩ := List.mem_map.mp he
      exact ⟨r, hr, hend⟩
  · rintro ⟨r, hr, hend⟩
    exact Or.inr ⟨_, List.mem_map.mpr ⟨r, hr, rfl⟩, hend⟩

theorem least_direct_iff :
    (direct highest records).least = maxWord ↔
      ∀ r ∈ records, min r.1 highest = 0 ∨ min r.1 highest = maxWord := by
  rw [direct_eq hn,
    Distribution.least_recordAll_eq_maxWord_iff fun e he => (mem_direct hbound hn he).2,
    List.forall_mem_map]
  exact ⟨fun h => h.2, fun h => ⟨rfl, h⟩⟩

theorem get_direct_ne_zero_iff {i : UInt64} :
    (direct highest records).bins.get i ≠ 0 ↔ ∃ r ∈ records, Bin.index (min r.1 highest) = i := by
  rw [direct_eq hn, Distribution.get_recordAll_ne_zero_iff Bins.ascending_empty
    fun e he => mem_direct hbound hn he]
  constructor
  · rintro (hzero | ⟨e, he, hi⟩)
    · exact absurd rfl hzero
    · obtain ⟨r, hr, rfl⟩ := List.mem_map.mp he
      exact ⟨r, hr, hi⟩
  · rintro ⟨r, hr, hi⟩
    exact Or.inr ⟨_, List.mem_map.mpr ⟨r, hr, rfl⟩, hi⟩

/-- Where only the largest word was recorded, the snapshot knows its bin and no more. -/
theorem min_of_forall_eq_maxWord (hs : h.Sound) (htight : (direct highest records).Tight)
    (hget : ∀ i, h.snapshot.bins.get i = (direct highest records).bins.get i)
    (hsum : h.snapshot.bins.sum = (direct highest records).bins.sum) (hne : records ≠ [])
    (hall : ∀ r ∈ records, min r.1 highest = maxWord) :
    h.snapshot.min = Bin.floor maxWord ∧ (direct highest records).min = maxWord := by
  have hlast : Bin.index maxWord ≠ 0 := by decide
  obtain ⟨r, hr⟩ := List.exists_mem_of_ne_nil records hne
  have hmet : (direct highest records).bins.get (Bin.index maxWord) ≠ 0 :=
    (get_direct_ne_zero_iff hbound hn).mpr ⟨r, hr, by rw [hall r hr]⟩
  have hfirst : (direct highest records).bins.get 0 = 0 := by
    by_contra hzero
    obtain ⟨r, hr, hbin⟩ := (get_direct_ne_zero_iff hbound hn).mp hzero
    rw [hall r hr] at hbin
    exact hlast hbin
  have hpos : (direct highest records).bins.sum ≠ 0 := by
    intro hzero
    have hle := htight.ascending.get_le_sum (Bin.index maxWord)
    rw [hzero] at hle
    exact hmet (UInt64.toNat_inj.mp (Nat.le_zero.mp hle))
  have hleast : (direct highest records).least = maxWord :=
    (least_direct_iff hbound hn).mpr fun r hr => Or.inr (hall r hr)
  have hsnapshot : h.snapshot.bins.get (Bin.index maxWord) ≠ 0 := by rwa [hget]
  have hindex := hs.tight_snapshot.index_least_eq htight hget ⟨_, hlast, hsnapshot⟩
  rw [hleast] at hindex
  constructor
  · rw [Distribution.min_eq_minNonZero (by rwa [hsum]) (by rwa [hget]),
      Distribution.minNonZero_eq_floor hindex (hs.least_snapshot_ne hlast hsnapshot)]
  · rw [Distribution.min_eq_minNonZero hpos hfirst, Distribution.minNonZero, if_pos hleast]

end Direct

/-- **A snapshot loses nothing.** Values are recorded into a histogram, and into a distribution for
the same bound one at a time, larger values as the bound. All of them have a bin, and so has every
value that the snapshot records. The snapshot has the same count in every bin as the distribution,
and the same number of values, which is the size of the histogram. It has the same least value too,
unless that is the largest word, and the same greatest value, unless that is: of the largest word
the snapshot only knows the bin. -/
theorem snapshot_direct (hmake : make highest = .ok h) (hn : ∀ r ∈ records, r.2 ≠ 0)
    (hfits : (records.map (·.2.toNat)).sum < 2 ^ 64) :
    (∀ r ∈ records, Bin.index (min r.1 highest) < Bin.total highest) ∧
      (∀ e ∈ (h.recordAll records).bins.entries,
        Bin.index (Bin.low e.1) = e.1 ∧ e.1 < Bin.total highest) ∧
      (∀ i, (h.recordAll records).snapshot.bins.get i = (direct highest records).bins.get i) ∧
      (h.recordAll records).snapshot.count = (direct highest records).count ∧
      (h.recordAll records).snapshot.count = (h.recordAll records).size ∧
      (h.recordAll records).size.toNat = (records.map (·.2.toNat)).sum ∧
      ((records = [] ∨ ∃ r ∈ records, min r.1 highest ≠ maxWord) →
        (h.recordAll records).snapshot.min = (direct highest records).min) ∧
      ((records ≠ [] ∧ ∀ r ∈ records, min r.1 highest = maxWord) →
        (h.recordAll records).snapshot.min = 18437736874454810624 ∧
          (direct highest records).min = maxWord) ∧
      ((∀ r ∈ records, min r.1 highest ≠ maxWord) →
        (h.recordAll records).snapshot.max = (direct highest records).max) ∧
      ((∃ r ∈ records, min r.1 highest = maxWord) →
        (h.recordAll records).snapshot.max = maxWord - 1 ∧
          (direct highest records).max = maxWord) := by
  obtain ⟨rfl, hbound⟩ := eq_of_make hmake
  have hs := (sound_empty highest).recordAll records
  obtain ⟨hdirect, htotal⟩ := bins_direct hbound hn hfits
  have htight := tight_direct hbound hn
  have hget : ∀ i, ((empty highest).recordAll records).snapshot.bins.get i =
      (direct highest records).bins.get i := by
    intro i
    rw [hs.bins_snapshot, hdirect]
    exact hs.ascending.get_entries i
  have hsum : ((empty highest).recordAll records).snapshot.bins.sum =
      (direct highest records).bins.sum := by
    rw [hs.bins_snapshot, hdirect]
    exact Bins.sum_entries _
  have hsize : ((empty highest).recordAll records).size.toNat = (records.map (·.2.toNat)).sum := by
    rw [hs.size_eq, ← hdirect, htotal, UInt64.toNat_ofNat']
    omega
  refine ⟨fun r _ => index_min_lt_total r.1 highest, ?_, hget, ?_, ?_, hsize, ?_, ?_, ?_, ?_⟩
  · intro e he
    have hcell := (List.mem_filter.mp he).1
    have hlt := UInt64.lt_of_le_of_lt (hs.le_highest hcell) (Bin.index_lt_total _)
    rw [highest_recordAll] at hlt
    exact ⟨hs.index_low hcell, hlt⟩
  · rw [Distribution.count, Distribution.count, hsum]
  · apply UInt64.toNat_inj.mp
    rw [Distribution.count, hsum, htotal, ofNatSat_toNat, hsize]
    omega
  · intro hother
    refine hs.tight_snapshot.min_eq htight hget hsum fun hpos hfirst => ?_
    rw [hsum, htotal] at hpos
    rw [hget] at hfirst
    rcases hother with rfl | ⟨r, hr, hword⟩
    · exact absurd rfl hpos
    · have hmet := (get_direct_ne_zero_iff hbound hn).mpr ⟨r, hr, rfl⟩
      have hbin : Bin.index (min r.1 highest) ≠ 0 := fun h => hmet (h ▸ hfirst)
      refine ⟨hs.least_snapshot_ne hbin (by rwa [hget]), fun hleast => ?_⟩
      exact ((least_direct_iff hbound hn).mp hleast r hr).elim
        (fun hzero => hbin (Bin.index_eq_zero_iff.mpr hzero)) hword
  · rintro ⟨hne, hall⟩
    exact min_of_forall_eq_maxWord hbound hn hs htight hget hsum hne hall
  · intro hnone
    refine hs.tight_snapshot.max_eq htight hget hs.greatest_snapshot_ne fun hend => ?_
    obtain ⟨r, hr, hword⟩ := (greatest_direct_iff hbound hn).mp hend
    exact hnone r hr hword
  · intro hsome
    have hend := (greatest_direct_iff hbound hn).mpr hsome
    have hindex := hs.tight_snapshot.index_greatest_eq htight hget
    rw [hend] at hindex
    constructor
    · rw [Distribution.max_eq_of_index_eq hindex hs.greatest_snapshot_ne (by decide)]
      decide
    · rw [Distribution.max, hend]
      decide

/-- Values above ten thousand count as ten thousand, which is told apart from the values of another
bin. -/
theorem snapshot_direct_bounded :
    let records : List (UInt64 × UInt64) := [(5000000, 3), (2049, 1), (18446744073709551615, 2)]
    ∃ h, make 10000 = .ok h ∧
      (h.recordAll records).snapshot.count = 6 ∧
      (h.recordAll records).snapshot.min = (direct 10000 records).min ∧
      (h.recordAll records).snapshot.max = (direct 10000 records).max := by
  intro records
  have hmake : make 10000 = .ok (empty 10000) := rfl
  have hn : ∀ r ∈ records, r.2 ≠ 0 := by simp [records]
  obtain ⟨-, -, -, -, hcount, hsize, hmin, -, hmax, -⟩ := snapshot_direct hmake hn (by decide)
  refine ⟨empty 10000, hmake, ?_, hmin (Or.inr ⟨(2049, 1), ?_, by decide⟩), hmax ?_⟩
  · rw [hcount]
    exact UInt64.toNat_inj.mp hsize
  · simp [records]
  · simp only [records, List.forall_mem_cons]
    exact ⟨by decide, by decide, by decide, fun r hr => nomatch hr⟩

/-- The largest word is told from the values in its bin by the distribution, and not by a
snapshot. -/
theorem snapshot_ends_ne_direct :
    make maxWord = .ok (empty maxWord) ∧
      ((empty maxWord).recordAll [(maxWord, 1)]).snapshot.min ≠
        (direct maxWord [(maxWord, 1)]).min ∧
      ((empty maxWord).recordAll [(maxWord, 1)]).snapshot.max ≠
        (direct maxWord [(maxWord, 1)]).max := by
  refine ⟨rfl, ?_⟩
  decide +kernel

end Histogram

end Admission
