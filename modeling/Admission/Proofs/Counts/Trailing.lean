import Admission.Counts.Rolling
import Admission.Outcome.Vocabulary
import Admission.Proofs.Window.History
import Admission.Proofs.Word
import Mathlib.Algebra.Order.BigOperators.Group.List
import Mathlib.Algebra.Order.Ring.Nat

/-!
# What rolling counts tell

Rolling counts are fed with tallies at timestamps in any order. A query over a trailing span tells
the sum of the tallies in the slots that the span covers, without those whose slot was overtaken:
some tally needed the position of the slot for a later one.

## Main definitions

* `Tally K`: an amount that is counted for a key at a timestamp
* `RollingCounts.after`: rolling counts after a history of tallies
* `Tally.amount`, `Tally.counted`: the sum of tallies, and of those that a query finds

## Main results

* `getD_stored?_after`: what is counted in one slot
* `sum_values_after`: sums over the slots of a walk
* `countOver_after`: what a query over a trailing span tells
-/

namespace Admission

open Window (Shape)

/-- An amount that is counted for a key at a timestamp. -/
structure Tally (K : Type) where
  key : K
  delta : UInt64
  now : UInt64

namespace Tally

variable {K : Type}

/-- The sum of tallies. -/
def amount (ts : List (Tally K)) : Nat := (ts.map (·.delta.toNat)).sum

theorem amount_append (ts us : List (Tally K)) : amount (ts ++ us) = amount ts + amount us := by
  simp [amount]

/-- Some of the tallies have no larger sum than all. -/
theorem amount_filter_le (ts : List (Tally K)) (p : Tally K → Bool) :
    amount (ts.filter p) ≤ amount ts :=
  (List.filter_sublist.map _).sum_le_sum fun _ _ => Nat.zero_le _

/-- More tallies have a larger sum. -/
theorem amount_filter_mono {ts : List (Tally K)} {p q : Tally K → Bool}
    (h : ∀ t ∈ ts, p t = true → q t = true) : amount (ts.filter p) ≤ amount (ts.filter q) := by
  have hboth : ts.filter p = (ts.filter q).filter p := by
    rw [List.filter_filter]
    refine List.filter_congr fun t ht => ?_
    cases hp : p t with
    | false => rfl
    | true => rw [h t ht hp, Bool.and_self]
  rw [hboth]
  exact amount_filter_le _ p

/-- The tallies whose slot no other tally overtook. -/
def kept (shape : Shape) (ts : List (Tally K)) : List (Tally K) :=
  ts.filter fun t => ∀ u ∈ ts, ¬ shape.Overtakes (shape.slotOf u.now) (shape.slotOf t.now)

/-- The sum of the tallies of some keys that a query over a span finds: their slots are covered by
the span, and were never overtaken. -/
def counted (shape : Shape) (ts : List (Tally K)) (p : K → Bool) (span : Duration) (now : UInt64) :
    Nat :=
  amount ((kept shape ts).filter fun t => p t.key ∧ shape.Covers span now (shape.slotOf t.now))

/-- Up to the present, a query misses nothing in the slots that it covers. -/
theorem counted_of_le {shape : Shape} {ts : List (Tally K)} {now : UInt64}
    (h : ∀ t ∈ ts, t.now ≤ now) (p : K → Bool) (span : Duration) :
    counted shape ts p span now =
      amount (ts.filter fun t => p t.key ∧ shape.Covers span now (shape.slotOf t.now)) := by
  rw [counted, kept, List.filter_filter]
  congr 1
  refine List.filter_congr fun t ht => ?_
  simp only [Bool.decide_and, Bool.and_eq_left_iff_imp, Bool.and_eq_true, decide_eq_true_eq,
    and_imp]
  intro _ hc u hu
  exact hc.not_overtakes (shape.slotOf_le_slotOf (h u hu))

end Tally

namespace Counts

variable {K : Type} [MetricKey K]

open MetricKey (variants mem_variants nodup_variants)

theorem sum_get_add (c : Counts K) (k : K) (d : UInt64) [DecidableEq K] {l : List K}
    (hl : l.Nodup) :
    (l.map (c.add k d).get).sum = (l.map c.get).sum + if k ∈ l then d else 0 := by
  induction l with
  | nil => simp
  | cons a l ih =>
    obtain ⟨ha, hl⟩ := List.nodup_cons.mp hl
    rw [List.map_cons, List.sum_cons, List.map_cons, List.sum_cons, ih hl]
    -- In a list without duplicates the key adds its delta at one place.
    by_cases hk : k = a
    · subst hk
      rw [get_add_self, if_neg ha, if_pos List.mem_cons_self, UInt64.add_zero, UInt64.add_assoc,
        UInt64.add_assoc, UInt64.add_comm d]
    · have hmem : k ∈ a :: l ↔ k ∈ l := by simp [hk]
      rw [get_add_of_ne hk, UInt64.add_assoc]
      simp only [hmem]

open Classical in
theorem totalWhere_add (c : Counts K) (k : K) (d : UInt64) (p : K → Bool) :
    (c.add k d).totalWhere p = c.totalWhere p + if p k then d else 0 := by
  rw [totalWhere, sum_get_add c k d (nodup_variants.filter _), totalWhere]
  simp only [List.mem_filter, mem_variants, true_and]

@[simp] theorem totalWhere_zero (p : K → Bool) : (zero : Counts K).totalWhere p = 0 := by
  rw [totalWhere]
  induction (variants K).filter p with
  | nil => rfl
  | cons a l ih => rw [List.map_cons, List.sum_cons, ih, get_zero, UInt64.add_zero]

theorem total_eq_totalWhere (c : Counts K) : c.total = c.totalWhere fun _ => true := by
  rw [total, toList, totalWhere, List.filter_true]

/-- The counts of tallies, whatever their timestamps. -/
def ofTallies (ts : List (Tally K)) : Counts K := ts.foldl (fun c t => c.add t.key t.delta) zero

theorem ofTallies_snoc (ts : List (Tally K)) (t : Tally K) :
    ofTallies (ts ++ [t]) = (ofTallies ts).add t.key t.delta := by
  simp [ofTallies, List.foldl_append]

theorem totalWhere_ofTallies (ts : List (Tally K)) (p : K → Bool) :
    (ofTallies ts).totalWhere p = UInt64.ofNat (Tally.amount (ts.filter (p ·.key))) := by
  induction ts using List.reverseRecOn with
  | nil => exact totalWhere_zero p
  | append_singleton ts t ih =>
    rw [ofTallies_snoc, totalWhere_add, ih, List.filter_append, Tally.amount_append,
      UInt64.ofNat_add]
    by_cases hp : p t.key <;> simp [hp, Tally.amount]

theorem get_ofTallies [DecidableEq K] (ts : List (Tally K)) (k : K) :
    (ofTallies ts).get k = UInt64.ofNat (Tally.amount (ts.filter (·.key = k))) := by
  induction ts using List.reverseRecOn with
  | nil => exact get_zero
  | append_singleton ts t ih =>
    rw [ofTallies_snoc, List.filter_append, Tally.amount_append, UInt64.ofNat_add, ← ih]
    by_cases hk : t.key = k
    · subst hk
      simp [Tally.amount]
    · rw [get_add_of_ne hk]
      simp [hk, Tally.amount]

end Counts

namespace RollingCounts

variable {K : Type} [MetricKey K]

/-- Rolling counts after a history of tallies, the earliest first. -/
def after (shape : Shape) (ts : List (Tally K)) : RollingCounts K :=
  ts.foldl (fun r t => r.add t.key t.delta t.now) (empty shape)

/-- What a tally does to the accumulator of its slot. -/
def writeOf (t : Tally K) : Window.Write (Counts K) := ⟨t.now, (·.add t.key t.delta)⟩

theorem after_snoc (shape : Shape) (ts : List (Tally K)) (t : Tally K) :
    after shape (ts ++ [t]) = (after shape ts).add t.key t.delta t.now := by
  simp [after, List.foldl_append]

theorem window_after (shape : Shape) (ts : List (Tally K)) :
    (after shape ts).window = Window.after shape Counts.zero (ts.map writeOf) := by
  induction ts using List.reverseRecOn with
  | nil => rfl
  | append_singleton ts t ih =>
    rw [after_snoc, List.map_append, List.map_singleton, Window.after_snoc, ← ih]
    rfl

/-- What is counted in one slot: all its tallies, unless the slot was overtaken. -/
theorem getD_stored?_after (shape : Shape) (ts : List (Tally K)) (slot : UInt64) :
    ((after shape ts).window.stored? slot).getD Counts.zero =
      Counts.ofTallies ((Tally.kept shape ts).filter (shape.slotOf ·.now = slot)) := by
  rw [window_after]
  exact Window.getD_stored?_after shape Counts.zero writeOf ts slot

/-- Slots without an accumulator add nothing to a sum over a walk. -/
theorem sum_filterMap {α M : Type} [Add M] [Zero M] (zero_add : ∀ m : M, 0 + m = m) {fresh : α}
    (f : α → M) (hf : f fresh = 0) {ι : Type} (g : ι → Option α) (l : List ι) :
    ((l.filterMap g).map f).sum = (l.map fun i => f ((g i).getD fresh)).sum := by
  induction l with
  | nil => rfl
  | cons i l ih =>
    rw [List.map_cons, List.sum_cons, ← ih]
    cases h : g i with
    | none => rw [List.filterMap_cons_none h, Option.getD_none, hf, zero_add]
    | some a => rw [List.filterMap_cons_some h, Option.getD_some, List.map_cons, List.sum_cons]

/-- A sum over the accumulators that a walk finds, slot by slot. -/
theorem sum_values_after {M : Type} [Add M] [Zero M] (zero_add : ∀ m : M, 0 + m = m)
    (f : Counts K → M) (hf : f Counts.zero = 0) (shape : Shape) (ts : List (Tally K))
    (span : Duration)
    (now : UInt64) :
    (((after shape ts).window.intervalsOver now span).map fun i => f i.value).sum =
      ((Shape.slotsEnding (shape.slotOf now) (shape.bucketsFor span)).map fun slot =>
        f (Counts.ofTallies ((Tally.kept shape ts).filter (shape.slotOf ·.now = slot)))).sum := by
  -- A walk tells slots and values; only the values are summed.
  have hmap : ((after shape ts).window.intervalsOver now span).map (fun i => f i.value) =
      (((after shape ts).window.intervalsOver now span).map (·.value)).map f := by
    rw [List.map_map]
    rfl
  have hshape : (after shape ts).window.shape = shape := by rw [window_after, Window.shape_after]
  rw [hmap, Window.values_intervalsOver, sum_filterMap zero_add f hf, hshape]
  simp only [getD_stored?_after]

end RollingCounts

namespace Tally

variable {K : Type}

theorem amount_filter_or (ts : List (Tally K)) {p q : Tally K → Prop} [DecidablePred p]
    [DecidablePred q]
    (h : ∀ t, p t → ¬ q t) :
    amount (ts.filter fun t => p t ∨ q t) =
      amount (ts.filter fun t => p t) + amount (ts.filter fun t => q t) := by
  induction ts with
  | nil => rfl
  | cons t ts ih =>
    simp only [amount] at ih ⊢
    by_cases hp : p t
    · have := h t hp
      simp only [List.filter_cons, hp, this, or_false, decide_true, decide_false, if_true, if_false,
        List.map_cons, List.sum_cons, ih, Bool.false_eq_true]
      omega
    · by_cases hq : q t
      · simp only [List.filter_cons, hp, hq, or_true, decide_true, decide_false, if_true, if_false,
          List.map_cons, List.sum_cons, ih, Bool.false_eq_true]
        omega
      · simp only [List.filter_cons, hp, hq, or_false, decide_false, if_false, ih,
          Bool.false_eq_true]

/-- The sums of the tallies in each of some slots make up the sum of the tallies in any of them. -/
theorem sum_amount_slots (slotOf : Tally K → UInt64) {slots : List UInt64} (hs : slots.Nodup)
    (ts : List (Tally K)) :
    (slots.map fun slot => amount (ts.filter (slotOf · = slot))).sum =
      amount (ts.filter (slotOf · ∈ slots)) := by
  induction slots with
  | nil => simp [amount]
  | cons a slots ih =>
    obtain ⟨ha, hs⟩ := List.nodup_cons.mp hs
    rw [List.map_cons, List.sum_cons, ih hs, ← amount_filter_or]
    · simp only [List.mem_cons]
    · rintro t rfl
      exact ha

/-- The sum over the slots that a span covers, as a walk visits them. -/
theorem sum_amount_covered (shape : Shape) (ts : List (Tally K)) (p : K → Bool) (span : Duration)
    (now : UInt64) :
    ((Shape.slotsEnding (shape.slotOf now) (shape.bucketsFor span)).map fun slot =>
      amount (((kept shape ts).filter (shape.slotOf ·.now = slot)).filter (p ·.key))).sum =
      counted shape ts p span now := by
  -- The sum is over slots, so the filter for the slot has to come last.
  have hcomm :
      ∀ slot : UInt64, ((kept shape ts).filter (shape.slotOf ·.now = slot)).filter (p ·.key) =
        ((kept shape ts).filter (p ·.key)).filter (shape.slotOf ·.now = slot) := by
    intro slot
    rw [List.filter_filter, List.filter_filter]
    refine List.filter_congr fun t _ => ?_
    rw [Bool.and_comm]
  simp only [hcomm]
  rw [sum_amount_slots (fun t => shape.slotOf t.now) (Shape.nodup_slotsEnding _ _), counted,
    List.filter_filter]
  congr 1
  refine List.filter_congr fun t _ => ?_
  have hmem : shape.slotOf t.now ∈
      Shape.slotsEnding (shape.slotOf now) (shape.bucketsFor span) ↔
      shape.Covers span now (shape.slotOf t.now) := by
    rw [Shape.mem_slotsEnding (shape.bucketsFor_ne_zero span), shape.bucketsFor_toNat]
    rfl
  simp only [hmem, Bool.decide_and, Bool.decide_eq_true, Bool.and_comm]

/-- What is counted does not depend on the order of the tallies. -/
theorem counted_perm {shape : Shape} {ts us : List (Tally K)} (h : us.Perm ts) (p : K → Bool)
    (span : Duration) (now : UInt64) : counted shape us p span now =
      counted shape ts p span now := by
  have hkept : (kept shape us).Perm (kept shape ts) := by
    rw [kept, kept]
    -- Whether a tally is overtaken depends on the set of the tallies only.
    have hsame : us.filter (fun t => ∀ u ∈ us,
        ¬ shape.Overtakes (shape.slotOf u.now) (shape.slotOf t.now)) =
        us.filter (fun t => ∀ u ∈ ts,
          ¬ shape.Overtakes (shape.slotOf u.now) (shape.slotOf t.now)) := by
      simp only [h.mem_iff]
    rw [hsame]
    exact h.filter _
  exact ((hkept.filter _).map _).sum_nat

end Tally

namespace RollingCounts

variable {K : Type} [MetricKey K]

theorem countOver_eq_ofNat [DecidableEq K] (shape : Shape) (ts : List (Tally K)) (k : K)
    (span : Duration) (now : UInt64) :
    (after shape ts).countOver k span now =
      UInt64.ofNat (Tally.counted shape ts (fun l => decide (l = k)) span now) := by
  rw [countOver, sum_values_after UInt64.zero_add (·.get k) Counts.get_zero]
  simp only [Counts.get_ofTallies]
  rw [sum_ofNat, Tally.sum_amount_covered shape ts (fun l => decide (l = k))]

/-- **What a query over a trailing span tells** is the sum of the tallies of its key in the slots
that the span covers, less those whose slot a tally overtook: whatever the order of the timestamps,
and, if none lies in the future of the query, without any loss. Sums are told as words. -/
theorem countOver_after [DecidableEq K] (shape : Shape) (ts : List (Tally K)) (k : K)
    (span : Duration)
    (now : UInt64) :
    ((after shape ts).countOver k span now).toNat =
        Tally.amount (ts.filter fun t => t.key = k ∧ shape.Covers span now (shape.slotOf t.now) ∧
          ∀ u ∈ ts, ¬ shape.Overtakes (shape.slotOf u.now) (shape.slotOf t.now)) % 2 ^ 64 ∧
    (∀ us : List (Tally K), us.Perm ts →
      (after shape us).countOver k span now = (after shape ts).countOver k span now) ∧
    ((∀ t ∈ ts, t.now ≤ now) → ((after shape ts).countOver k span now).toNat =
        Tally.amount (ts.filter fun t =>
          t.key = k ∧ shape.Covers span now (shape.slotOf t.now)) % 2 ^ 64) := by
  refine ⟨?_, ?_, ?_⟩
  · rw [countOver_eq_ofNat, UInt64.toNat_ofNat', Tally.counted, Tally.kept, List.filter_filter]
    congr 3
    funext t
    simp only [Bool.decide_and, decide_eq_true_eq, Bool.and_assoc]
  · intro us h
    rw [countOver_eq_ofNat, countOver_eq_ofNat, Tally.counted_perm h]
  · intro h
    rw [countOver_eq_ofNat, UInt64.toNat_ofNat', Tally.counted_of_le h]
    simp only [decide_eq_true_eq]

/-- On a ring of two slots of width ten, the tally of slot zero is lost to slot two, whichever came
first, and slot one is counted though it was written last. -/
theorem countOver_after_backwards :
    let shape : Shape := ⟨2, 10, 0, by decide, by decide⟩
    let ts : List (Tally ActionResult) :=
      [⟨.success, 3, 25⟩, ⟨.success, 5, 2⟩, ⟨.error, 9, 28⟩, ⟨.success, 7, 12⟩]
    (∀ t ∈ ts, t.now ≤ 29) ∧ ((after shape ts).countOver .success ⟨20⟩ 29).toNat = 10 ∧
      ((after shape ts).countOver .success ⟨20⟩ 9).toNat = 0 := by
  intro shape ts
  have hnow : ∀ t ∈ ts, t.now ≤ 29 := by decide
  refine ⟨hnow, ?_, ?_⟩
  · rw [(countOver_after shape ts .success ⟨20⟩ 29).2.2 hnow]
    decide
  · rw [(countOver_after shape ts .success ⟨20⟩ 9).1]
    decide

end RollingCounts

end Admission
