import Admission.Histogram.Bins
import Mathlib.Order.Lattice

/-!
# Sparse counts as functions

A list of bins in ascending order is a function from bins to counts that is zero almost everywhere.
A change of one bin is a change of the function there, and the bins that were counted in can be
counted again, one after another, without a loss.

## Main definitions

* `Bins.Ascending`: the listed bins are in ascending order

## Main results

* `Bins.get_alter`, `Bins.sum_alter`: the counts and their sum after a change
* `Bins.mem_entries`: which bins are counted in, and how often
* `Bins.foldl_alter`: counting all of them again
-/

namespace Admission.Bins

variable {b : Bins} {i j n : UInt64} {f g : UInt64 → UInt64} {l : List (UInt64 × UInt64)}
  {e : UInt64 × UInt64}

/-- The listed bins are in ascending order. -/
def Ascending (b : Bins) : Prop := b.cells.Pairwise fun e e' => e.1 < e'.1

theorem ascending_empty : empty.Ascending := List.Pairwise.nil

/-! ## Counts -/

theorem get_cons : get ⟨(j, n) :: l⟩ i = if j = i then n else get ⟨l⟩ i := by
  unfold get
  rw [List.find?_cons]
  by_cases hji : j = i
  · rw [if_pos hji, beq_iff_eq.mpr hji]
    rfl
  · rw [if_neg hji, beq_false_of_ne hji]

theorem get_eq_zero (h : ∀ e ∈ l, e.1 ≠ i) : get ⟨l⟩ i = 0 := by
  induction l with
  | nil => rfl
  | cons e l ih =>
    rw [get_cons, if_neg (h e List.mem_cons_self)]
    exact ih fun e' he' => h e' (List.mem_cons_of_mem e he')

/-- A bin before the first one listed is not counted in. -/
theorem Ascending.get_of_lt (h : Ascending ⟨e :: l⟩) (hlt : i < e.1) : get ⟨e :: l⟩ i = 0 := by
  apply get_eq_zero
  intro e' he'
  rcases List.mem_cons.mp he' with rfl | he'
  · exact fun h => UInt64.ne_of_lt hlt h.symm
  · have hlater := (List.pairwise_cons.mp h).1 e' he'
    exact fun h => UInt64.ne_of_lt (UInt64.lt_trans hlt hlater) h.symm

/-- The count of a listed bin. -/
theorem Ascending.get_of_mem (h : b.Ascending) (he : e ∈ b.cells) : b.get e.1 = e.2 := by
  obtain ⟨l⟩ := b
  induction l with
  | nil => cases he
  | cons e' l ih =>
    obtain ⟨hfirst, hrest⟩ := List.pairwise_cons.mp h
    rw [get_cons]
    rcases List.mem_cons.mp he with rfl | hmem
    · rw [if_pos rfl]
    · rw [if_neg (UInt64.ne_of_lt (hfirst e hmem))]
      exact ih hrest hmem

theorem mem_of_get_ne_zero (h : b.get i ≠ 0) : (i, b.get i) ∈ b.cells := by
  obtain ⟨l⟩ := b
  induction l with
  | nil => exact absurd rfl h
  | cons e l ih =>
    rw [get_cons] at h ⊢
    by_cases hi : e.1 = i
    · rw [if_pos hi, ← hi]
      exact List.mem_cons_self
    · rw [if_neg hi] at h ⊢
      exact List.mem_cons_of_mem e (ih h)

/-- The bins that are counted in. -/
theorem Ascending.mem_entries (h : b.Ascending) : e ∈ b.entries ↔ e.2 ≠ 0 ∧ b.get e.1 = e.2 := by
  unfold entries
  rw [List.mem_filter, bne_iff_ne]
  constructor
  · rintro ⟨hmem, hne⟩
    exact ⟨hne, h.get_of_mem hmem⟩
  · rintro ⟨hne, hget⟩
    have hmem := mem_of_get_ne_zero (hget ▸ hne)
    rw [hget] at hmem
    exact ⟨hmem, hne⟩

theorem Ascending.entries (h : b.Ascending) : Ascending ⟨b.entries⟩ := h.filter _

/-- Bins that are listed and not counted in do not matter. -/
theorem Ascending.get_entries (h : b.Ascending) (i : UInt64) : get ⟨b.entries⟩ i = b.get i := by
  by_cases hi : b.get i = 0
  · rw [hi]
    apply get_eq_zero
    rintro e he rfl
    obtain ⟨hne, hget⟩ := h.mem_entries.mp he
    exact hne (hget.symm.trans hi)
  · have hmem : (i, b.get i) ∈ b.entries := h.mem_entries.mpr ⟨hi, rfl⟩
    exact h.entries.get_of_mem hmem

/-! ## Changes -/

theorem mem_go (h : e ∈ alter.go i f l) : e.1 = i ∨ e ∈ l := by
  induction l with
  | nil => exact Or.inl (congrArg Prod.fst (List.mem_singleton.mp h))
  | cons e' l ih =>
    rw [alter.go] at h
    split at h
    · rcases List.mem_cons.mp h with rfl | h
      · exact Or.inl rfl
      · exact Or.inr h
    · split at h
      · rcases List.mem_cons.mp h with rfl | h
        · exact Or.inl rfl
        · exact Or.inr (List.mem_cons_of_mem e' h)
      · rcases List.mem_cons.mp h with rfl | h
        · exact Or.inr List.mem_cons_self
        · exact (ih h).imp_right (List.mem_cons_of_mem e')

/-- The listed bins are those listed before and the one changed. -/
theorem mem_alter (h : e ∈ (b.alter i f).cells) : e.1 = i ∨ e ∈ b.cells := mem_go h

theorem Ascending.alter (h : b.Ascending) (i : UInt64) (f : UInt64 → UInt64) :
    (b.alter i f).Ascending := by
  obtain ⟨l⟩ := b
  show (alter.go i f l).Pairwise _
  induction l with
  | nil => exact List.pairwise_singleton _ _
  | cons e l ih =>
    obtain ⟨hfirst, hrest⟩ := List.pairwise_cons.mp h
    rw [alter.go]
    split
    · rename_i hlt
      refine List.pairwise_cons.mpr ⟨fun e' he' => ?_, h⟩
      rcases List.mem_cons.mp he' with rfl | he'
      · exact hlt
      · exact UInt64.lt_trans hlt (hfirst e' he')
    · split
      · rename_i heq
        subst heq
        exact List.pairwise_cons.mpr ⟨hfirst, hrest⟩
      · rename_i hnot hne
        have hlt : e.1 < i := UInt64.lt_of_le_of_ne (UInt64.not_lt.mp hnot) fun h => hne h.symm
        refine List.pairwise_cons.mpr ⟨fun e' he' => ?_, ih hrest⟩
        rcases mem_go he' with rfl | he'
        · exact hlt
        · exact hfirst e' he'

/-- A change of one bin. -/
theorem Ascending.get_alter (h : b.Ascending) (i : UInt64) (f : UInt64 → UInt64) (j : UInt64) :
    (b.alter i f).get j = if j = i then f (b.get i) else b.get j := by
  obtain ⟨l⟩ := b
  show get ⟨alter.go i f l⟩ j = _
  induction l with
  | nil =>
    rw [alter.go, get_cons]
    by_cases hj : j = i
    · rw [if_pos hj.symm, if_pos hj]
      rfl
    · rw [if_neg fun h => hj h.symm, if_neg hj]
  | cons e l ih =>
    obtain ⟨hfirst, hrest⟩ := List.pairwise_cons.mp h
    rw [alter.go]
    split
    · rename_i hlt
      have hzero : get ⟨e :: l⟩ i = 0 := h.get_of_lt hlt
      rw [get_cons, hzero]
      by_cases hj : j = i
      · rw [if_pos hj.symm, if_pos hj]
      · rw [if_neg fun h => hj h.symm, if_neg hj]
    · split
      · rename_i heq
        have hi : get ⟨e :: l⟩ i = e.2 := by rw [get_cons, if_pos heq.symm]
        rw [hi, get_cons, get_cons]
        by_cases hj : j = i
        · rw [if_pos hj.symm, if_pos hj]
        · rw [if_neg fun h => hj h.symm, if_neg hj, if_neg fun h => hj (h.symm.trans heq.symm)]
      · rename_i hne
        have hi : get ⟨e :: l⟩ i = get ⟨l⟩ i := by rw [get_cons, if_neg fun h => hne h.symm]
        rw [hi, get_cons, get_cons, ih hrest]
        by_cases hj : j = i
        · rw [if_neg fun h => hne (hj.symm.trans h.symm), if_pos hj, if_pos hj]
        · rw [if_neg hj, if_neg hj]

/-- Only the value of the change at the count matters. -/
theorem Ascending.alter_congr (h : b.Ascending) (hfg : f (b.get i) = g (b.get i)) :
    b.alter i f = b.alter i g := by
  obtain ⟨l⟩ := b
  show Bins.mk (alter.go i f l) = ⟨alter.go i g l⟩
  congr 1
  induction l with
  | nil =>
    have hzero : f 0 = g 0 := hfg
    rw [alter.go, alter.go, hzero]
  | cons e l ih =>
    obtain ⟨hfirst, hrest⟩ := List.pairwise_cons.mp h
    rw [alter.go, alter.go]
    split
    · rename_i hlt
      have hzero : get ⟨e :: l⟩ i = 0 := h.get_of_lt hlt
      rw [hzero] at hfg
      rw [hfg]
    · split
      · rename_i heq
        rw [get_cons, if_pos heq.symm] at hfg
        rw [hfg]
      · rename_i hne
        rw [get_cons, if_neg fun h => hne h.symm] at hfg
        rw [ih hrest hfg]

/-- Two changes of one bin. -/
theorem alter_alter (b : Bins) (i : UInt64) (f g : UInt64 → UInt64) :
    (b.alter i f).alter i g = b.alter i (fun n => g (f n)) := by
  obtain ⟨l⟩ := b
  show Bins.mk (alter.go i g (alter.go i f l)) = ⟨alter.go i (fun n => g (f n)) l⟩
  congr 1
  induction l with
  | nil => rw [alter.go, alter.go, alter.go, if_neg (UInt64.lt_irrefl i), if_pos rfl]
  | cons e l ih =>
    by_cases hlt : i < e.1
    · rw [alter.go, alter.go, if_pos hlt, if_pos hlt, alter.go,
        if_neg (UInt64.lt_irrefl i), if_pos rfl]
    · by_cases heq : i = e.1
      · rw [alter.go, alter.go, if_neg hlt, if_neg hlt, if_pos heq, if_pos heq, alter.go,
          if_neg (UInt64.lt_irrefl i), if_pos rfl]
      · rw [alter.go, alter.go, if_neg hlt, if_neg hlt, if_neg heq, if_neg heq, alter.go,
          if_neg hlt, if_neg heq, ih]

/-! ## Sums -/

theorem sum_eq (b : Bins) : b.sum = (b.cells.map (·.2.toNat)).sum := by
  obtain ⟨l⟩ := b
  show ((l.filter fun e => e.2 != 0).map (·.2.toNat)).sum = _
  induction l with
  | nil => rfl
  | cons e l ih =>
    by_cases he : e.2 = 0
    · have hno : ¬ (e.2 != 0) = true := fun h => bne_iff_ne.mp h he
      rw [List.filter_cons_of_neg (p := fun e : UInt64 × UInt64 => e.2 != 0) hno, ih, List.map_cons,
        List.sum_cons, he]
      exact (Nat.zero_add _).symm
    · rw [List.filter_cons_of_pos (p := fun e : UInt64 × UInt64 => e.2 != 0) (bne_iff_ne.mpr he),
        List.map_cons, List.sum_cons, ih, List.map_cons, List.sum_cons]

theorem sum_entries (b : Bins) : sum ⟨b.entries⟩ = b.sum := sum_eq ⟨b.entries⟩

/-- The sum of the counts after a change. -/
theorem Ascending.sum_alter (h : b.Ascending) (i : UInt64) (f : UInt64 → UInt64) :
    (b.alter i f).sum + (b.get i).toNat = b.sum + (f (b.get i)).toNat := by
  rw [sum_eq, sum_eq]
  obtain ⟨l⟩ := b
  show ((alter.go i f l).map (·.2.toNat)).sum + _ = (l.map (·.2.toNat)).sum + _
  induction l with
  | nil => exact Nat.add_comm _ _
  | cons e l ih =>
    obtain ⟨j, n⟩ := e
    have hmore := ih (List.pairwise_cons.mp h).2
    have hzero : (0 : UInt64).toNat = 0 := rfl
    rw [alter.go]
    by_cases hlt : i < j
    · rw [if_pos hlt, h.get_of_lt hlt, hzero, List.map_cons, List.sum_cons]
      dsimp only
      omega
    · rw [if_neg hlt, List.map_cons, List.sum_cons, get_cons]
      by_cases heq : i = j
      · rw [if_pos heq, if_pos heq.symm, List.map_cons, List.sum_cons]
        dsimp only
        omega
      · rw [if_neg heq, if_neg fun h => heq h.symm, List.map_cons, List.sum_cons]
        dsimp only
        omega

theorem Ascending.get_le_sum (h : b.Ascending) (i : UInt64) : (b.get i).toNat ≤ b.sum := by
  have hsum := h.sum_alter i fun _ => 0
  have hzero : (0 : UInt64).toNat = 0 := rfl
  rw [hzero] at hsum
  omega

/-- Some bin is counted in if the sum is not zero. -/
theorem Ascending.exists_get_ne_zero (h : b.Ascending) (hsum : b.sum ≠ 0) : ∃ i, b.get i ≠ 0 := by
  by_contra hnone
  apply hsum
  have hentries : b.entries = [] := by
    rw [List.eq_nil_iff_forall_not_mem]
    intro e he
    obtain ⟨hne, hget⟩ := h.mem_entries.mp he
    exact hnone ⟨e.1, by rwa [hget]⟩
  rw [sum, hentries]
  rfl

/-! ## Counting again -/

theorem go_of_forall_lt (h : ∀ e ∈ l, e.1 < i) : alter.go i f l = l ++ [(i, f 0)] := by
  induction l with
  | nil => rfl
  | cons e l ih =>
    have hlt := h e List.mem_cons_self
    rw [alter.go, if_neg (UInt64.not_lt.mpr (UInt64.le_of_lt hlt)),
      if_neg fun heq => UInt64.ne_of_lt hlt heq.symm,
        ih fun e' he' => h e' (List.mem_cons_of_mem e he')]
    rfl

theorem addSat_zero_left (n : UInt64) : addSat 0 n = n := by
  apply UInt64.toNat_inj.mp
  have hm : maxWord.toNat = 2 ^ 64 - 1 := rfl
  have hzero : (0 : UInt64).toNat = 0 := rfl
  have := n.toNat_lt
  rw [addSat_toNat, hm, hzero]
  omega

theorem foldl_alter_append (done : List (UInt64 × UInt64)) {l : List (UInt64 × UInt64)}
    (h : Ascending ⟨done ++ l⟩) :
    l.foldl (fun b e => alter b e.1 (addSat · e.2)) ⟨done⟩ = ⟨done ++ l⟩ := by
  induction l generalizing done with
  | nil => rw [List.append_nil, List.foldl_nil]
  | cons e l ih =>
    have hlt : ∀ e' ∈ done, e'.1 < e.1 := fun e' he' =>
      (List.pairwise_append.mp h).2.2 e' he' e List.mem_cons_self
    have hnext : alter ⟨done⟩ e.1 (addSat · e.2) = ⟨done ++ [e]⟩ := by
      show Bins.mk (alter.go e.1 (addSat · e.2) done) = _
      rw [go_of_forall_lt hlt, addSat_zero_left]
    rw [List.foldl_cons, hnext, ih _ (by rwa [List.append_assoc]), List.append_assoc]
    rfl

/-- Bins that are listed in ascending order are counted again without a loss. -/
theorem foldl_alter (h : Ascending ⟨l⟩) :
    l.foldl (fun b e => alter b e.1 (addSat · e.2)) empty = ⟨l⟩ :=
  foldl_alter_append [] h

end Admission.Bins
