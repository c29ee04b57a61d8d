import Admission.Config.Basic
import Admission.Toml.Writer

/-!
# Configurations as documents

A configuration is written as a document with a table for each section. In a document that is read,
any section and any setting may be missing and is then the default; keys that name no setting are
passed over. A section may also be a list, whose items are the settings in their order.

## Main definitions

* `Config.ofTable?`, `Config.parse`: reads a configuration
* `Config.sections`, `Config.render`: writes one
* `Config.load`, `Config.save`: the same for files
-/

namespace Admission

open Toml (Setting Table Value)

namespace Toml.Value

/-- A number that is a word. -/
def word? : Value → Option UInt64
  | .scalar (.integer n) =>
    if 0 ≤ n ∧ n.toNat < UInt64.size then some (UInt64.ofNat n.toNat) else none
  | _ => none

/-- A number that is a byte. -/
def byte? : Value → Option UInt8
  | .scalar (.integer n) =>
    if 0 ≤ n ∧ n.toNat < UInt8.size then some (UInt8.ofNat n.toNat) else none
  | _ => none

/-- A text. -/
def text? : Value → Option String
  | .scalar (.text s) => some s
  | _ => none

/-- A truth value. -/
def truth? : Value → Option Bool
  | .scalar (.boolean b) => some b
  | _ => none

/-- Whether a value is a list or a table with nothing in it. -/
def isHollow : Value → Bool
  | .list items => items.isEmpty
  | .table _ entries => entries.isEmpty
  | _ => false

/-- The name of a level, which may also stand as the only key of a table, over something hollow. -/
def level? : Value → Option Level
  | .scalar (.text s) => Level.ofName? s
  | .table _ [(key, v)] => if v.isHollow then Level.ofName? key else none
  | _ => none

/-- What a section gives for its settings, whose keys are listed in their order. A list, of tables
or of anything else, gives them without their keys, and a moment gives none. What stands under other
keys is only checked for numbers that have no machine representation, and further items not even for
these. -/
def given? (keys : List String) : Value → Option (String → Option Value)
  | .table _ entries =>
    if entries.all fun e => keys.contains e.1 || e.2.isMachineSized then
      some fun key => Table.get? entries key
    else none
  | .list items => some fun key => items[keys.idxOf key]?
  | .tables rows => some fun key => rows[keys.idxOf key]?.map (.table .header)
  | .scalar (.moment _) => some fun _ => none
  | _ => none

end Toml.Value

namespace Config

/-! ## Reading -/

/-- Reads a setting, or takes its default. -/
def setting {α : Type} (given : String → Option Value) (key : String) (read : Value → Option α)
    (default : α) : Option α :=
  match given key with
  | some v => read v
  | none => some default

/-- Reads a section with the given keys, or takes its defaults. -/
def readSection {α : Type} (t : Table) (name : String) (keys : List String)
    (read : (String → Option Value) → Option α) (default : α) : Option α :=
  match t.get? name with
  | some v => (v.given? keys).bind read
  | none => some default

/-- Reads the settings of the rolling window. -/
def readRolling (given : String → Option Value) : Option WindowConfig := do
  let d : WindowConfig := {}
  return {
    bucketCount := ← setting given "bucket_count" Value.word? d.bucketCount
    bucketWidthMillis := ← setting given "bucket_width_millis" Value.word? d.bucketWidthMillis }

/-- Reads the settings of the latencies. -/
def readLatency (given : String → Option Value) : Option LatencyConfig := do
  let d : LatencyConfig := {}
  return {
    highestTrackableNanos :=
      ← setting given "highest_trackable_nanos" Value.word? d.highestTrackableNanos }

/-- Reads the settings of the semaphore. -/
def readSemaphore (given : String → Option Value) : Option SemaphoreConfig := do
  let d : SemaphoreConfig := {}
  return { maxConcurrency := ← setting given "max_concurrency" Value.word? d.maxConcurrency }

/-- Reads the settings of the rate limiter. -/
def readRateLimiter (given : String → Option Value) : Option RateLimiterConfig := do
  let d : RateLimiterConfig := {}
  return {
    allowedPerPeriod := ← setting given "allowed_per_period" Value.word? d.allowedPerPeriod
    periodMillis := ← setting given "period_millis" Value.word? d.periodMillis }

/-- Reads the settings of the circuit breaker. -/
def readBreaker (given : String → Option Value) : Option BreakerConfig := do
  let d : BreakerConfig := {}
  return {
    failureThreshold := ← setting given "failure_threshold" Value.word? d.failureThreshold
    failurePercentageThreshold :=
      ← setting given "failure_percentage_threshold" Value.byte? d.failurePercentageThreshold
    sampleSizeThreshold := ← setting given "sample_size_threshold" Value.word? d.sampleSizeThreshold
    trailingPeriodMillis :=
      ← setting given "trailing_period_millis" Value.word? d.trailingPeriodMillis
    backoffPeriodMillis := ← setting given "backoff_period_millis" Value.word? d.backoffPeriodMillis
    healthRefreshMillis :=
      ← setting given "health_refresh_millis" Value.word? d.healthRefreshMillis }

/-- Reads the settings of the timeout service. -/
def readTimeout (given : String → Option Value) : Option TimeoutConfig := do
  let d : TimeoutConfig := {}
  return {
    name := ← setting given "name" Value.text? d.name
    maxTimeoutMillis := ← setting given "max_timeout_millis" Value.word? d.maxTimeoutMillis }

/-- Reads the settings of the log. -/
def readLogging (given : String → Option Value) : Option LoggingConfig := do
  let d : LoggingConfig := {}
  return {
    level := ← setting given "level" Value.level? d.level
    json := ← setting given "json" Value.truth? d.json
    logFile := ← setting given "log_file" (fun v => v.text?.map some) d.logFile }

/-- The keys of all sections, each with the keys of its settings. -/
def layout : List (String × List String) :=
  [("rolling", ["bucket_count", "bucket_width_millis"]),
    ("latency", ["highest_trackable_nanos"]),
    ("semaphore", ["max_concurrency"]),
    ("rate_limiter", ["allowed_per_period", "period_millis"]),
    ("circuit_breaker",
      ["failure_threshold", "failure_percentage_threshold", "sample_size_threshold",
        "trailing_period_millis", "backoff_period_millis", "health_refresh_millis"]),
    ("timeout", ["name", "max_timeout_millis"]),
    ("logging", ["level", "json", "log_file"])]

/-- The keys of the settings of a section. -/
def keysOf (name : String) : List String := (layout.lookup name).getD []

/-- Reads a configuration from the table of a document. -/
def ofTable? (t : Table) : Option Config := do
  guard (t.all fun e => (layout.lookup e.1).isSome || e.2.isMachineSized)
  return {
    rolling := ← readSection t "rolling" (keysOf "rolling") readRolling {}
    latency := ← readSection t "latency" (keysOf "latency") readLatency {}
    semaphore := ← readSection t "semaphore" (keysOf "semaphore") readSemaphore {}
    rateLimiter := ← readSection t "rate_limiter" (keysOf "rate_limiter") readRateLimiter {}
    circuitBreaker := ← readSection t "circuit_breaker" (keysOf "circuit_breaker") readBreaker {}
    timeout := ← readSection t "timeout" (keysOf "timeout") readTimeout {}
    logging := ← readSection t "logging" (keysOf "logging") readLogging {} }

/-- Reads a configuration from a document and checks it. -/
def parse (text : String) : Except Error Config :=
  match (Toml.parse text).bind ofTable? with
  | none => .error .configParse
  | some c => do
    c.validate
    return c

/-! ## Writing -/

/-- A number as a setting. -/
def word (n : UInt64) : Setting := .number n.toNat

/-- The sections of a configuration with all their settings. A log file that is not set is left
out. -/
def sections (c : Config) : List Toml.Section :=
  [⟨"rolling",
      [("bucket_count", word c.rolling.bucketCount),
        ("bucket_width_millis", word c.rolling.bucketWidthMillis)]⟩,
    ⟨"latency", [("highest_trackable_nanos", word c.latency.highestTrackableNanos)]⟩,
    ⟨"semaphore", [("max_concurrency", word c.semaphore.maxConcurrency)]⟩,
    ⟨"rate_limiter",
      [("allowed_per_period", word c.rateLimiter.allowedPerPeriod),
        ("period_millis", word c.rateLimiter.periodMillis)]⟩,
    ⟨"circuit_breaker",
      [("failure_threshold", word c.circuitBreaker.failureThreshold),
        ("failure_percentage_threshold",
          .number c.circuitBreaker.failurePercentageThreshold.toNat),
        ("sample_size_threshold", word c.circuitBreaker.sampleSizeThreshold),
        ("trailing_period_millis", word c.circuitBreaker.trailingPeriodMillis),
        ("backoff_period_millis", word c.circuitBreaker.backoffPeriodMillis),
        ("health_refresh_millis", word c.circuitBreaker.healthRefreshMillis)]⟩,
    ⟨"timeout",
      [("name", .text c.timeout.name), ("max_timeout_millis", word c.timeout.maxTimeoutMillis)]⟩,
    ⟨"logging",
      [("level", .text c.logging.level.name), ("json", .truth c.logging.json)]
        ++ (c.logging.logFile.map fun f => ("log_file", Setting.text f)).toList⟩]

/-- Writes a configuration as a document. -/
def render (c : Config) : String := Toml.write c.sections

/-! ## Files -/

/-- Reads a configuration from the bytes of a file, if the file can be read. -/
def load (file : Option ByteArray) : Except Error Config :=
  match file.bind String.fromUTF8? with
  | some text => parse text
  | none => .error .io

/-- The text that a configuration is saved as, if the file can be written. -/
def save (c : Config) (writable : Bool) : Except Error String :=
  if writable then .ok c.render else .error .io

end Config

end Admission
