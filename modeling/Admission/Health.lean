import Admission.Counts.Rolling

/-!
# Health

The health of a guarded resource is the share of failures among its recent results. A checker adds
up the results of a trailing span, keeps the sums, and adds up again only when a refresh interval
has passed.

## Main definitions

* `HealthSnapshot`: results, failures and their percentage
* `HealthChecker`: the kept snapshot, and when it was taken
* `HealthChecker.health`, `HealthChecker.refresh`: the snapshot, taken again if it is due, or always
-/

namespace Admission

/-- Results and failures over some span. -/
structure HealthSnapshot where
  total : UInt64
  failures : UInt64
  /-- The percentage of failures, rounded down, at most one hundred, and zero without results. -/
  failurePercentage : UInt8
deriving DecidableEq, Repr

namespace HealthSnapshot

/-- The snapshot of given sums. -/
def ofCounts (total failures : UInt64) : HealthSnapshot where
  total := total
  failures := failures
  failurePercentage :=
    if total = 0 then 0
    else
      let p := failures.toNat * 100 / total.toNat
      if p < 100 then UInt8.ofNat p else 100

/-- The snapshot without results. -/
def zero : HealthSnapshot := ⟨0, 0, 0⟩

end HealthSnapshot

variable {O : Type} [Outcome O]

/-- The health of the results in the buckets that cover the span up to `now`. -/
def RollingCounts.health (r : RollingCounts O) (span : Duration) (now : UInt64) : HealthSnapshot :=
  let buckets := r.window.intervalsOver now span
  .ofCounts (buckets.foldl (fun n i => addSat n i.value.total) 0)
    (buckets.foldl (fun n i => addSat n (i.value.totalWhere Outcome.isFailure)) 0)

/-- A snapshot that is taken again after an interval. -/
structure HealthChecker where
  trailing : Duration
  /-- How long a snapshot is kept, in nanoseconds. -/
  refreshInterval : UInt64
  /-- When the snapshot was taken; the largest word stands for never. -/
  lastTaken : UInt64 := maxWord
  cached : HealthSnapshot := .zero
  aggregations : UInt64 := 0
deriving DecidableEq, Repr

namespace HealthChecker

/-- A checker that has not looked yet. -/
def make (trailing refresh : Duration) : HealthChecker where
  trailing := trailing
  refreshInterval := refresh.toWord

/-- Whether the snapshot is to be taken again: none was taken yet, or the interval has passed. -/
def isDue (c : HealthChecker) (now : UInt64) : Bool :=
  c.lastTaken == maxWord || c.refreshInterval ≤ subSat now c.lastTaken

/-- Takes the snapshot. -/
def refresh (c : HealthChecker) (metrics : RollingCounts O) (now : UInt64) :
    HealthChecker × HealthSnapshot :=
  let snapshot := metrics.health c.trailing now
  ({ c with lastTaken := now, cached := snapshot, aggregations := c.aggregations + 1 }, snapshot)

/-- The kept snapshot, taken again if it is due. -/
def health (c : HealthChecker) (metrics : RollingCounts O) (now : UInt64) :
    HealthChecker × HealthSnapshot :=
  if c.isDue now then c.refresh metrics now else (c, c.cached)

end HealthChecker

end Admission
