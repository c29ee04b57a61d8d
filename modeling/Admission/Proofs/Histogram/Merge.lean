import Admission.Proofs.Histogram.Snapshot

/-!
# Counts of recorded and merged values

Each bin of a histogram counts the values that were recorded and belong to it, around the end of the
words. A merge adds up the counts of each bin, and stops at the largest word.

## Main results

* `Histogram.Sound.get_recordAll`: the count of a bin after some values
* `Histogram.Sound.get_snapshot`: a snapshot has the count of the histogram in every bin
* `Distribution.get_merge`, `Distribution.get_foldl_merge`: the counts of merged distributions
-/

namespace Admission

/-! ## Histograms -/

namespace Histogram

variable {h : Histogram}

/-- A bin counts the values that belong to it, larger values as the bound. -/
theorem Sound.get_recordAll (hs : h.Sound) (values : List UInt64) (bin : UInt64) :
    (h.recordAll (values.map (·, 1))).bins.get bin =
      h.bins.get bin + UInt64.ofNat (values.countP fun v => Bin.index (min v h.highest) = bin) := by
  induction values generalizing h with
  | nil => exact (UInt64.add_zero _).symm
  | cons v values ih =>
    have hrest := ih (hs.record v 1)
    have hhighest : (h.record v 1).highest = h.highest := rfl
    rw [hhighest] at hrest
    rw [List.map_cons, List.countP_cons]
    refine hrest.trans ?_
    rw [record_eq, UInt64.ofNat_add]
    dsimp only
    rw [hs.ascending.get_alter]
    by_cases hbin : Bin.index (min v h.highest) = bin
    · rw [if_pos hbin.symm, if_pos (decide_eq_true hbin), hbin, UInt64.add_assoc,
        UInt64.add_comm 1]
      rfl
    · rw [if_neg fun h => hbin h.symm, if_neg (by simpa using hbin)]
      exact congrArg _ (UInt64.add_zero _).symm

/-- A snapshot has the count of the histogram in every bin. -/
theorem Sound.get_snapshot (hs : h.Sound) (bin : UInt64) :
    h.snapshot.bins.get bin = h.bins.get bin := by
  rw [hs.bins_snapshot]
  exact hs.ascending.get_entries bin

theorem Sound.ascending_snapshot (hs : h.Sound) : h.snapshot.bins.Ascending := by
  rw [hs.bins_snapshot]
  exact hs.ascending.entries

end Histogram

/-! ## Distributions -/

theorem addSat_zero (n : UInt64) : addSat n 0 = n := by
  apply UInt64.toNat_inj.mp
  have hm : maxWord.toNat = 2 ^ 64 - 1 := rfl
  have hzero : (0 : UInt64).toNat = 0 := rfl
  have := n.toNat_lt
  rw [addSat_toNat, hm, hzero]
  omega

/-- Counts that are added bin by bin. -/
theorem Bins.Ascending.get_foldl_alter {b : Bins} {l : List (UInt64 × UInt64)} (hb : b.Ascending)
    (hl : Bins.Ascending ⟨l⟩) (bin : UInt64) :
    (l.foldl (fun b e => b.alter e.1 (addSat · e.2)) b).Ascending ∧
      (l.foldl (fun b e => b.alter e.1 (addSat · e.2)) b).get bin =
        addSat (b.get bin) (Bins.get ⟨l⟩ bin) := by
  induction l generalizing b with
  | nil =>
    exact ⟨hb, (addSat_zero _).symm⟩
  | cons e l ih =>
    obtain ⟨hfirst, hrest⟩ := List.pairwise_cons.mp hl
    obtain ⟨hasc, hget⟩ := ih (hb.alter e.1 (addSat · e.2)) hrest
    refine ⟨hasc, ?_⟩
    rw [List.foldl_cons, hget, hb.get_alter, Bins.get_cons]
    by_cases hbin : bin = e.1
    · -- A bin is listed once.
      have hnone : Bins.get ⟨l⟩ e.1 = 0 :=
        Bins.get_eq_zero fun e' he' h => UInt64.ne_of_lt (hfirst e' he') h.symm
      rw [if_pos hbin, if_pos hbin.symm, hbin, hnone, addSat_zero]
    · rw [if_neg hbin, if_neg fun h => hbin h.symm]

namespace Distribution

variable {d other : Distribution}

theorem ascending_merge (hd : d.bins.Ascending) (ho : other.bins.Ascending) :
    (d.merge other).bins.Ascending :=
  (hd.get_foldl_alter ho.entries 0).1

/-- A merge adds up the counts of every bin. -/
theorem get_merge (hd : d.bins.Ascending) (ho : other.bins.Ascending) (bin : UInt64) :
    (d.merge other).bins.get bin = addSat (d.bins.get bin) (other.bins.get bin) := by
  rw [← ho.get_entries bin]
  exact (hd.get_foldl_alter ho.entries bin).2

theorem get_foldl_merge {ds : List Distribution} (hd : d.bins.Ascending)
    (hds : ∀ d' ∈ ds, d'.bins.Ascending) (bin : UInt64) :
    ((ds.foldl merge d).bins.get bin).toNat =
      Min.min ((d.bins.get bin).toNat + (ds.map fun d' => (d'.bins.get bin).toNat).sum)
        (2 ^ 64 - 1) := by
  rw [← foldl_addSat_toNat (fun d' : Distribution => d'.bins.get bin) ds]
  congr 1
  induction ds generalizing d with
  | nil => rfl
  | cons d' ds ih =>
    have hd' := hds d' List.mem_cons_self
    rw [List.foldl_cons, List.foldl_cons, ← get_merge hd hd']
    exact ih (ascending_merge hd hd') fun e he => hds e (List.mem_cons_of_mem d' he)

end Distribution

end Admission
