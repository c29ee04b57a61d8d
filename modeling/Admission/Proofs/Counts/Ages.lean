import Admission.Proofs.Counts.Trailing

/-!
# How old the tallies are that a query finds

A query looks back over whole slots, and the slot of its own time is not over yet. A span that is
rounded up to a number of buckets is therefore covered in time for one bucket less at least, and
never for the whole of that number: how much of the oldest slot is covered depends on where in its
slot the query is made.

## Main results

* `Shape.covers_of_age_le`: what is young enough lies in a slot that is covered
* `Shape.Covers.age_lt`: what lies in a slot that is covered is young enough
* `countOver_between`: a query tells no less and no more than the tallies of these ages
-/

namespace Admission

open Window (Shape)

namespace Window.Shape

variable {s : Shape} {span : Duration} {t now : UInt64}

/-- A timestamp whose age is at most one bucket less than the buckets of the span lies in a slot
that the span covers. -/
theorem covers_of_age_le (ht : t ≤ now)
    (hage : now.toNat - t.toNat ≤ (s.reach span - 1) * s.width.toNat) :
    s.Covers span now (s.slotOf t) := by
  refine ⟨s.slotOf_le_slotOf ht, ?_⟩
  have hreach := s.reach_pos span
  rw [UInt64.le_iff_toNat_le] at ht
  rw [slotOf_toNat, slotOf_toNat]
  -- Going back by a number of widths goes back by as many slots.
  have hslots : (now.toNat - s.start.toNat) / s.width.toNat ≤
      (t.toNat - s.start.toNat) / s.width.toNat + (s.reach span - 1) := by
    rw [← Nat.add_mul_div_right _ _ s.width_pos]
    exact Nat.div_le_div_right (by omega)
  omega

/-- A timestamp in a slot that the span covers is younger than the buckets of the span. -/
theorem Covers.age_lt (h : s.Covers span now (s.slotOf t)) (hstart : s.start ≤ t) :
    now.toNat - t.toNat < s.reach span * s.width.toNat := by
  obtain ⟨-, hlt⟩ := h
  rw [UInt64.le_iff_toNat_le] at hstart
  rw [slotOf_toNat, slotOf_toNat, Nat.div_lt_iff_lt_mul s.width_pos, Nat.add_mul] at hlt
  have hfloor := Nat.div_mul_le_self (t.toNat - s.start.toNat) s.width.toNat
  have hpos := Nat.mul_pos (s.reach_pos span) s.width_pos
  omega

end Window.Shape

namespace RollingCounts

variable {K : Type} [MetricKey K]

/-- **What a trailing span covers in time.** With the span rounded up to `n` buckets, at least one
and at most all, a query finds all tallies of its key whose age is at most `n - 1` widths, and only
such whose age is less than `n` widths, in whatever order they came. The sum of those in the slots
that are covered fits a word. -/
theorem countOver_between [DecidableEq K] (shape : Shape) (ts : List (Tally K)) (k : K)
    (span : Duration)
    (now : UInt64) (n : Nat)
    (hn : n = min
      (max ((min span.nanos (2 ^ 64 - 1) + shape.width.toNat - 1) / shape.width.toNat) 1)
      shape.bucketCount.toNat)
    (htime : ∀ t ∈ ts, shape.start ≤ t.now ∧ t.now ≤ now)
    (hfits : Tally.amount (ts.filter fun t =>
      t.key = k ∧ shape.Covers span now (shape.slotOf t.now)) < 2 ^ 64) :
    Tally.amount (ts.filter fun t =>
        t.key = k ∧ now.toNat - t.now.toNat ≤ (n - 1) * shape.width.toNat) ≤
      ((after shape ts).countOver k span now).toNat ∧
    ((after shape ts).countOver k span now).toNat ≤
      Tally.amount (ts.filter fun t => t.key = k ∧
        now.toNat - t.now.toNat < n * shape.width.toNat) := by
  have hcount : ((after shape ts).countOver k span now).toNat =
      Tally.amount (ts.filter fun t => t.key = k ∧ shape.Covers span now (shape.slotOf t.now)) := by
    rw [countOver_eq_ofNat, Tally.counted_of_le fun t ht => (htime t ht).2, UInt64.toNat_ofNat']
    simp only [decide_eq_true_eq]
    exact Nat.mod_eq_of_lt hfits
  have hreach : n = shape.reach span := hn
  rw [hcount, hreach]
  constructor
  · refine Tally.amount_filter_mono fun t ht h => ?_
    rw [decide_eq_true_eq] at h ⊢
    exact ⟨h.1, Shape.covers_of_age_le (htime t ht).2 h.2⟩
  · refine Tally.amount_filter_mono fun t ht h => ?_
    rw [decide_eq_true_eq] at h ⊢
    exact ⟨h.1, h.2.age_lt (htime t ht).1⟩

/-- Three buckets of ten nanoseconds cover a span of twenty-five. Of tallies that are twenty,
twenty-nine and thirty old, the first lies within both bounds, the second between them, and the
third beyond; they came in another order. -/
theorem countOver_between_exact :
    let shape : Shape := ⟨3, 10, 5, by decide, by decide⟩
    let ts : List (Tally ActionResult) :=
      [⟨.success, 1, 24⟩, ⟨.success, 4, 14⟩, ⟨.error, 8, 44⟩, ⟨.success, 2, 15⟩]
    let now : UInt64 := 44
    3 = min (max ((min 25 (2 ^ 64 - 1) + shape.width.toNat - 1) / shape.width.toNat) 1)
        shape.bucketCount.toNat ∧
      (∀ t ∈ ts, shape.start ≤ t.now ∧ t.now ≤ now) ∧
      Tally.amount (ts.filter fun t =>
        t.key = .success ∧ shape.Covers ⟨25⟩ now (shape.slotOf t.now)) < 2 ^ 64 ∧
      ((after shape ts).countOver .success ⟨25⟩ now).toNat = 3 ∧
      1 ≤ ((after shape ts).countOver .success ⟨25⟩ now).toNat ∧
      ((after shape ts).countOver .success ⟨25⟩ now).toNat ≤ 3 := by
  intro shape ts now
  have hn : 3 = min (max ((min 25 (2 ^ 64 - 1) + shape.width.toNat - 1) / shape.width.toNat) 1)
      shape.bucketCount.toNat := by decide
  have htime : ∀ t ∈ ts, shape.start ≤ t.now ∧ t.now ≤ now := by decide
  have hfits : Tally.amount (ts.filter fun t =>
      t.key = .success ∧ shape.Covers ⟨25⟩ now (shape.slotOf t.now)) < 2 ^ 64 := by decide +kernel
  have hyoung : Tally.amount (ts.filter fun t =>
      t.key = .success ∧ now.toNat - t.now.toNat ≤ (3 - 1) * shape.width.toNat) = 1 := by
        decide +kernel
  have hold : Tally.amount (ts.filter fun t =>
      t.key = .success ∧ now.toNat - t.now.toNat < 3 * shape.width.toNat) = 3 := by decide +kernel
  obtain ⟨hleast, hmost⟩ := countOver_between shape ts .success ⟨25⟩ now 3 hn htime hfits
  exact ⟨hn, htime, hfits, by decide +kernel, hyoung.symm.trans_le hleast, hmost.trans_eq hold⟩

end RollingCounts

end Admission
