import Admission.Gate.CircuitBreaker
import Admission.Proofs.Counts.Trailing

/-!
# What a health check tells

The health over a span is made from the true sums of results and failures in the slots that the span
covers, as long as these sums fit a word. A circuit breaker that never keeps a snapshot looks at the
health as it is, and opens on exactly the failures that its thresholds ask for.

## Main definitions

* `Tally.resultsOver`, `Tally.failuresOver`: the true sums of results and failures over a span
* `BreakerConfig.Trips`: the thresholds, for true sums
* `CircuitBreaker.Follows`: the health is checked by the settings

## Main results

* `health_after`: the health after a history of results
* `isUnhealthy_health_after`: when this health is bad
* `CircuitBreaker.state_release_eq_opened_iff`: when a closed circuit opens
-/

namespace Admission

open Window (Shape)

namespace Tally

variable {K : Type}

/-- The units of all results in the slots that a span up to `now` covers. -/
def resultsOver (shape : Shape) (ts : List (Tally K)) (span : Duration) (now : UInt64) : Nat :=
  amount (ts.filter fun t => shape.Covers span now (shape.slotOf t.now))

/-- The units of the failures in the slots that a span up to `now` covers. -/
def failuresOver [Outcome K] (shape : Shape) (ts : List (Tally K)) (span : Duration)
    (now : UInt64) :
    Nat :=
  amount (ts.filter fun t =>
    Outcome.isFailure t.key ∧ shape.Covers span now (shape.slotOf t.now))

/-- Among the slots that a walk visits, none holds more than a query finds in all of them. -/
theorem amount_slot_le_counted (shape : Shape) (ts : List (Tally K)) (p : K → Bool)
    (span : Duration) (now : UInt64) {slot : UInt64}
    (h : slot ∈ Shape.slotsEnding (shape.slotOf now) (shape.bucketsFor span)) :
    amount (((kept shape ts).filter (shape.slotOf ·.now = slot)).filter (p ·.key)) ≤
      counted shape ts p span now := by
  rw [← sum_amount_covered]
  exact List.le_sum_of_mem (List.mem_map.mpr ⟨slot, h, rfl⟩)

/-- Fewer keys are counted less. -/
theorem counted_mono (shape : Shape) (ts : List (Tally K)) {p q : K → Bool}
    (h : ∀ k, p k = true → q k = true) (span : Duration) (now : UInt64) :
    counted shape ts p span now ≤ counted shape ts q span now := by
  refine amount_filter_mono fun t _ ht => ?_
  simp only [decide_eq_true_eq] at ht ⊢
  exact ⟨h _ ht.1, ht.2⟩

end Tally

variable {O : Type} [Outcome O]

namespace RollingCounts

/-- A sum of counts that stops at the largest word is the true sum, if that fits. -/
theorem foldl_addSat_after (shape : Shape) (ts : List (Tally O)) (p : O → Bool) (span : Duration)
    (now : UInt64) (hfit : Tally.counted shape ts p span now < 2 ^ 64) :
    ((after shape ts).window.intervalsOver now span).foldl
        (fun n i => addSat n (i.value.totalWhere p)) 0 =
      UInt64.ofNat (Tally.counted shape ts p span now) := by
  rw [← UInt64.toNat_inj, foldl_addSat_toNat,
    sum_values_after Nat.zero_add (fun c : Counts O => (c.totalWhere p).toNat)
      (by rw [Counts.totalWhere_zero]; rfl)]
  have hslots : (Shape.slotsEnding (shape.slotOf now) (shape.bucketsFor span)).map (fun slot =>
      ((Counts.ofTallies ((Tally.kept shape ts).filter
        (shape.slotOf ·.now = slot))).totalWhere p).toNat) =
      (Shape.slotsEnding (shape.slotOf now) (shape.bucketsFor span)).map fun slot =>
        Tally.amount (((Tally.kept shape ts).filter
          (shape.slotOf ·.now = slot)).filter (p ·.key)) := by
    refine List.map_congr_left fun slot hslot => ?_
    -- No slot holds more than all of them together, so none goes around.
    have hle := Tally.amount_slot_le_counted shape ts p span now hslot
    rw [Counts.totalWhere_ofTallies, UInt64.toNat_ofNat']
    exact Nat.mod_eq_of_lt (by omega)
  rw [hslots, Tally.sum_amount_covered, UInt64.toNat_ofNat']
  simp only [UInt64.toNat_zero, Nat.zero_add]
  omega

/-- **The health after a history of results** is made from the results, and from the failures, in
the slots that the span covers. -/
theorem health_after (shape : Shape) (ts : List (Tally O)) (span : Duration) (now : UInt64)
    (hfit : Tally.counted shape ts (fun _ => true) span now < 2 ^ 64) :
    (after shape ts).health span now =
      .ofCounts (.ofNat (Tally.counted shape ts (fun _ => true) span now))
        (.ofNat (Tally.counted shape ts Outcome.isFailure span now)) := by
  have hle := Tally.counted_mono shape ts (p := Outcome.isFailure) (q := fun _ => true)
    (fun _ _ => rfl) span now
  rw [health, ← foldl_addSat_after shape ts _ span now hfit,
    ← foldl_addSat_after shape ts _ span now (by omega)]
  simp only [Counts.total_eq_totalWhere]

end RollingCounts

namespace BreakerConfig

/-- The thresholds, for the true sums of failures and results: more failures than allowed, or a
higher percentage of them, rounded down, among enough results. -/
def Trips (c : BreakerConfig) (failures total : Nat) : Prop :=
  c.failureThreshold.toNat < failures ∨
    (c.failurePercentageThreshold.toNat < 100 * failures / total ∧
      c.sampleSizeThreshold.toNat ≤ total)

instance (c : BreakerConfig) (failures total : Nat) : Decidable (c.Trips failures total) :=
  inferInstanceAs (Decidable (_ ∨ _))

theorem failurePercentage_toNat {failures total : UInt64} (h : failures ≤ total) :
    (HealthSnapshot.ofCounts total failures).failurePercentage.toNat =
      100 * failures.toNat / total.toNat := by
  rw [UInt64.le_iff_toNat_le] at h
  rw [HealthSnapshot.ofCounts, Nat.mul_comm 100]
  dsimp only
  by_cases hzero : total = 0
  · subst hzero
    simp
  · rw [if_neg hzero]
    have hpos : 0 < total.toNat := Nat.pos_of_ne_zero fun e => hzero (UInt64.toNat_inj.mp e)
    have hle : failures.toNat * 100 / total.toNat ≤ 100 :=
      Nat.div_le_of_le_mul (Nat.mul_comm 100 _ ▸ Nat.mul_le_mul_right 100 h)
    -- A percentage is at most one hundred, so it fits in a byte.
    generalize failures.toNat * 100 / total.toNat = percentage at hle ⊢
    split_ifs with hlt
    · rw [UInt8.toNat_ofNat']
      omega
    · have : percentage = 100 := by omega
      rw [this]
      rfl

theorem isUnhealthy_ofCounts (c : BreakerConfig) {failures total : UInt64} (h : failures ≤ total) :
    c.isUnhealthy (.ofCounts total failures) = true ↔ c.Trips failures.toNat total.toNat := by
  rw [isUnhealthy, Bool.or_eq_true, Bool.and_eq_true, decide_eq_true_eq, decide_eq_true_eq,
    decide_eq_true_eq, UInt64.lt_iff_toNat_lt, UInt64.le_iff_toNat_le, UInt8.lt_iff_toNat_lt,
    failurePercentage_toNat h]
  rfl

/-- **When the health after a history of results is bad**: when the failures and results in the
slots that the trailing period covers exceed the thresholds. -/
theorem isUnhealthy_health_after (c : BreakerConfig) {shape : Shape} {ts : List (Tally O)}
    {now : UInt64} (hnow : ∀ t ∈ ts, t.now ≤ now)
    (hfit : Tally.resultsOver shape ts c.trailingPeriod now < 2 ^ 64) :
    c.isUnhealthy ((RollingCounts.after shape ts).health c.trailingPeriod now) = true ↔
      c.Trips (Tally.failuresOver shape ts c.trailingPeriod now)
        (Tally.resultsOver shape ts c.trailingPeriod now) := by
  have htotal : Tally.counted shape ts (fun _ => true) c.trailingPeriod now =
      Tally.resultsOver shape ts c.trailingPeriod now := by
    rw [Tally.counted_of_le hnow, Tally.resultsOver]
    simp only [true_and]
  have hfailures : Tally.counted shape ts Outcome.isFailure c.trailingPeriod now =
      Tally.failuresOver shape ts c.trailingPeriod now := by
    rw [Tally.counted_of_le hnow, Tally.failuresOver]
  -- There are no more failures than results, so both sums fit.
  have hle := Tally.counted_mono shape ts (p := Outcome.isFailure) (q := fun _ => true)
    (fun _ _ => rfl) c.trailingPeriod now
  rw [RollingCounts.health_after shape ts _ now (htotal ▸ hfit)]
  rw [htotal, hfailures] at hle ⊢
  have hresults := UInt64.toNat_ofNat_of_lt' hfit
  have hfailed := UInt64.toNat_ofNat_of_lt' (lt_of_le_of_lt hle hfit)
  rw [isUnhealthy_ofCounts, hresults, hfailed]
  rw [UInt64.le_iff_toNat_le, hresults, hfailed]
  exact hle

end BreakerConfig

namespace CircuitBreaker

variable {R : Type}

/-- A circuit has these settings, and its health is checked as they say. -/
structure Follows (b : CircuitBreaker) (c : BreakerConfig) : Prop where
  config : b.config = c
  /-- The health is that of the trailing period. -/
  trailing : b.health.trailing = c.trailingPeriod
  /-- A look at the health is kept for the refresh time. -/
  refresh : b.health.refreshInterval = c.healthRefresh.toWord

theorem follows_make {name : String} {c : BreakerConfig} {b : CircuitBreaker}
    (h : make name c = .ok b) : b.Follows c := by
  unfold make at h
  cases hv : c.validate with
  | error e =>
    rw [hv] at h
    cases h
  | ok _ =>
    rw [hv] at h
    cases h
    exact ⟨rfl, rfl, rfl⟩

variable {b : CircuitBreaker} {c : BreakerConfig}

omit [Outcome O] in
theorem Follows.acquire (h : b.Follows c) (now : UInt64) :
    (b.acquire (O := O) (R := R) now).1.Follows c := by
  unfold CircuitBreaker.acquire
  split
  · exact h
  · exact h
  · split
    · exact ⟨h.config, h.trailing, h.refresh⟩
    · exact h

theorem Follows.onFailure (h : b.Follows c) (results : RollingCounts O) (now : UInt64) :
    (b.onFailure (R := R) results now).1.Follows c := by
  have hcheck : (b.health.health results now).1.trailing = b.health.trailing ∧
      (b.health.health results now).1.refreshInterval = b.health.refreshInterval := by
    unfold HealthChecker.health
    split <;> exact ⟨rfl, rfl⟩
  unfold CircuitBreaker.onFailure
  dsimp only
  split
  · exact ⟨h.config, hcheck.1.trans h.trailing, hcheck.2.trans h.refresh⟩
  · exact ⟨h.config, hcheck.1.trans h.trailing, hcheck.2.trans h.refresh⟩

theorem Follows.release (h : b.Follows c) (results : RollingCounts O) (outcome : O) (now : UInt64) :
    (b.release (R := R) results outcome now).1.Follows c := by
  unfold CircuitBreaker.release
  split
  · split
    · exact ⟨h.config, h.trailing, h.refresh⟩
    · exact h
  · split
    · exact h.onFailure results now
    · exact h
  · exact h

/-- A circuit whose looks at the health are kept for no time sees the health as it is. -/
theorem Follows.health_eq (h : b.Follows c) (hrefresh : c.healthRefreshMillis = 0)
    (results : RollingCounts O) (now : UInt64) :
    (b.health.health results now).2 = results.health c.trailingPeriod now := by
  have hzero : b.health.refreshInterval = 0 := by
    rw [h.refresh, BreakerConfig.healthRefresh, hrefresh]
    rfl
  have hdue : b.health.isDue now = true := by
    rw [HealthChecker.isDue, hzero, Bool.or_eq_true, decide_eq_true_eq]
    exact Or.inr UInt64.zero_le
  rw [HealthChecker.health, if_pos hdue, ← h.trailing]
  rfl

/-- A closed circuit opens on a failure that finds the health bad, and on nothing else. -/
theorem state_release_eq_opened_iff (h : b.Follows c) (hrefresh : c.healthRefreshMillis = 0)
    (hclosed : b.state = .closed) (results : RollingCounts O) (outcome : O) (now : UInt64) :
    (b.release (R := R) results outcome now).1.state = .opened ↔
      Outcome.isFailure outcome = true ∧
        c.isUnhealthy (results.health c.trailingPeriod now) = true := by
  unfold CircuitBreaker.release
  rw [hclosed]
  dsimp only
  -- Only failures make a closed circuit look at the health.
  by_cases hf : Outcome.isFailure outcome = true
  · rw [if_pos hf, CircuitBreaker.onFailure, ← h.health_eq hrefresh results now, ← h.config]
    dsimp only
    split_ifs with hu
    · exact iff_of_true rfl ⟨hf, hu⟩
    · refine iff_of_false ?_ fun e => hu e.2
      rw [hclosed]
      decide
  · rw [if_neg hf, hclosed]
    exact iff_of_false (by decide) fun e => hf e.1

end CircuitBreaker

end Admission
