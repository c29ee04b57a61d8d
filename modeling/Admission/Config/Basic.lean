import Admission.Config.Logging
import Admission.Deadline.Service
import Admission.Gate.CircuitBreaker
import Admission.Gate.RateLimiter
import Admission.Gate.Semaphore
import Admission.Latency.Basic
import Admission.Window.Shape

/-!
# Configurations

A configuration holds the settings of a guard rail and all its parts, in sections.

## Main definitions

* `Config`: all settings
* `Config.validate`: which of them are valid
-/

namespace Admission

/-- The settings of a guard rail and its parts. -/
structure Config where
  rolling : WindowConfig := {}
  latency : LatencyConfig := {}
  semaphore : SemaphoreConfig := {}
  rateLimiter : RateLimiterConfig := {}
  circuitBreaker : BreakerConfig := {}
  timeout : TimeoutConfig := {}
  logging : LoggingConfig := {}
deriving DecidableEq, Repr

/-- Checks all sections in order, and then that the circuit breaker looks back no further than the
window reaches. -/
def Config.validate (c : Config) : Except Error Unit := do
  c.rolling.validate
  c.latency.validate
  c.semaphore.validate
  c.rateLimiter.validate
  c.circuitBreaker.validate
  c.timeout.validate
  let span ← c.rolling.span
  require (c.circuitBreaker.trailingPeriod.nanos ≤ span.nanos)
    (.trailingExceedsSpan c.circuitBreaker.trailingPeriodMillis span.millis)

end Admission
