import Admission.Error
import Admission.Time

/-!
# Rate limiters

A rate limiter bounds how many units are admitted in each period. The first request at or after the
deadline of a period starts the next one. Units are not returned: the bound is on admissions, not on
work in flight.

## Main definitions

* `RateLimiterConfig`: the settings, and which of them are valid
* `RateLimiter`: the units admitted in the current period, and its deadline
* `RateLimiter.rollOver`: starts the next period if it is due
* `RateLimiter.tryAcquire`: admits units that fit into the current period
-/

namespace Admission

/-- The settings of a rate limiter. -/
structure RateLimiterConfig where
  allowedPerPeriod : UInt64 := 1000
  /-- The length of a period in milliseconds. -/
  periodMillis : UInt64 := 1000
deriving DecidableEq, Repr

namespace RateLimiterConfig

/-- The length of a period. -/
def period (c : RateLimiterConfig) : Duration := .ofMillis c.periodMillis

/-- Checks the settings: something is admitted, and a period has a length. -/
def validate (c : RateLimiterConfig) : Except Error Unit := do
  require (c.allowedPerPeriod ≠ 0) .noAllowance
  require (c.periodMillis ≠ 0) .zeroPeriodMillis

end RateLimiterConfig

/-- A bound on the units admitted per period. -/
structure RateLimiter where
  allowed : UInt64
  /-- The length of a period in nanoseconds. -/
  period : UInt64
  count : UInt64
  deadline : UInt64
deriving DecidableEq, Repr

namespace RateLimiter

/-- A limiter whose first period starts at `now`. -/
def make (allowed : UInt64) (period : Duration) (now : UInt64) : Except Error RateLimiter := do
  require (allowed ≠ 0) .noAllowance
  require (period.toWord ≠ 0) .zeroPeriod
  return { allowed, period := period.toWord, count := 0, deadline := addSat now period.toWord }

/-- A limiter with validated settings. -/
def ofConfig (c : RateLimiterConfig) (now : UInt64) : Except Error RateLimiter := do
  c.validate
  make c.allowedPerPeriod c.period now

/-- The deadline after the current one for a request at `now`: one period on, or one period from
`now` if that has passed as well. -/
def nextDeadline (l : RateLimiter) (now : UInt64) : UInt64 :=
  let next := addSat l.deadline l.period
  if next ≤ now then addSat now l.period else next

/-- Starts the next period if `now` has reached the deadline. -/
def rollOver (l : RateLimiter) (now : UInt64) : RateLimiter :=
  if l.deadline ≤ now then { l with count := 0, deadline := l.nextDeadline now } else l

/-- Admits units if they fit into the period of `now`. -/
def tryAcquire (l : RateLimiter) (units now : UInt64) : RateLimiter × Bool :=
  let l := l.rollOver now
  if units ≤ maxWord - l.count ∧ l.count + units ≤ l.allowed then
    ({ l with count := l.count + units }, true)
  else (l, false)

end RateLimiter

end Admission
