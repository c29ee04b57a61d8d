/-!
# Errors

What can go wrong while a guard rail and its parts are set up. A refused admission is not an
error: it is an answer.

## Main definitions

* `InvalidSetting`: a setting that is out of range
* `Error`: every error of the library
* `Error.message`: the text of an error that carries one
-/

namespace Admission

/-- A setting that is out of range. -/
inductive InvalidSetting where
  | noBuckets
  /-- A configured bucket width of zero milliseconds. -/
  | zeroBucketWidthMillis
  | zeroBucketWidth
  /-- A window whose span does not fit the timeline. -/
  | spanTooLarge (bucketCount bucketWidthMillis : UInt64)
  | histogramBound
  | latencyBound
  | latencyBoundNanos
  | noConcurrency
  | noAllowance
  /-- A configured rate limiter period of zero milliseconds. -/
  | zeroPeriodMillis
  | zeroPeriod
  | failurePercentage
  /-- A trailing period of zero milliseconds. -/
  | zeroTrailingPeriod
  /-- A backoff period of zero milliseconds. -/
  | zeroBackoffPeriod
  | emptyServiceName
  /-- A longest timeout of zero milliseconds. -/
  | zeroMaxTimeout
  /-- A trailing period longer than the window that it looks back over. -/
  | trailingExceedsSpan (trailingMillis : UInt64) (spanMillis : Nat)
deriving DecidableEq, Repr

/-- The explanation of an invalid setting. -/
def InvalidSetting.detail : InvalidSetting → String
  | noBuckets => "bucket_count must be at least 1"
  | zeroBucketWidthMillis => "bucket_width_millis must be greater than 0"
  | zeroBucketWidth => "bucket width must be greater than 0"
  | spanTooLarge n w =>
    "rolling window span (" ++ toString n.toNat ++ " buckets of " ++ toString w.toNat
      ++ "ms) is too large"
  | histogramBound => "highest trackable histogram value must be at least 2"
  | latencyBound => "highest trackable latency must be at least 2"
  | latencyBoundNanos => "highest_trackable_nanos must be at least 2"
  | noConcurrency => "max_concurrency must be at least 1"
  | noAllowance => "allowed_per_period must be at least 1"
  | zeroPeriodMillis => "period_millis must be greater than 0"
  | zeroPeriod => "rate limiter period must be greater than 0"
  | failurePercentage => "failure_percentage_threshold must be between 0 and 100"
  | zeroTrailingPeriod => "trailing_period_millis must be greater than 0"
  | zeroBackoffPeriod => "backoff_period_millis must be greater than 0"
  | emptyServiceName => "timeout service name must not be empty"
  | zeroMaxTimeout => "max_timeout_millis must be greater than 0"
  | trailingExceedsSpan t s =>
    "circuit breaker trailing period (" ++ toString t.toNat
      ++ "ms) exceeds the rolling window span (" ++ toString s ++ "ms)"

/-- An error of the library. -/
inductive Error where
  | invalidConfig (setting : InvalidSetting)
  /-- A timeout was scheduled on a service that accepts no more work. -/
  | timeoutServiceStopped
  | configParse
  /-- A configuration could not be written as text. -/
  | configSerialize
  /-- A file could not be read or written. -/
  | io
  | logging
deriving DecidableEq, Repr

namespace Error

/-- The errors that only a mistake of the caller brings about. -/
def isProgrammingError : Error → Bool
  | invalidConfig _ => true
  | timeoutServiceStopped => true
  | _ => false

/-- The text of an error that the library words itself; the text of the others comes from the
surroundings. -/
def message? : Error → Option String
  | invalidConfig s => some ("Invalid configuration: " ++ s.detail)
  | timeoutServiceStopped => some "Timeout service has been stopped, timeout not scheduled"
  | _ => none

end Error

/-- Fails unless a condition on a setting holds. -/
def require (p : Prop) [Decidable p] (setting : InvalidSetting) : Except Error Unit :=
  if p then .ok () else .error (.invalidConfig setting)

@[simp] theorem require_eq_ok_iff {p : Prop} [Decidable p] {s : InvalidSetting} :
    require p s = .ok () ↔ p := by
  unfold require
  split <;> simp_all

end Admission
