import Admission.Diagnostic
import Admission.Error

/-!
# Circuit breakers

A circuit breaker refuses requests while the guarded resource is unhealthy. It is closed while all
is well. A failure that finds the health bad opens it. Open, it lets one probe through whenever the
backoff has passed since it was last tested, and any success closes it. Opened by hand, it refuses
everything until it is closed by hand.

## Main definitions

* `BreakerConfig`: the settings, which of them are valid, and which health is bad
* `CircuitState`, `CircuitBreaker`: the state of the circuit, and when it was last tested
* `CircuitBreaker.acquire`, `CircuitBreaker.release`: a request, and the outcome of an action
* `CircuitBreaker.forceOpen`, `CircuitBreaker.forceClosed`: the operator's override
* `CircuitBreaker.stats`: the state with the backoff that remains
-/

namespace Admission

/-- The settings of a circuit breaker. -/
structure BreakerConfig where
  /-- The circuit opens on more failures than this. -/
  failureThreshold : UInt64 := 9223372036854775807
  /-- The circuit opens on a higher percentage of failures than this, given enough results. -/
  failurePercentageThreshold : UInt8 := 50
  sampleSizeThreshold : UInt64 := 10
  /-- The span of results looked at, in milliseconds. -/
  trailingPeriodMillis : UInt64 := 1000
  /-- How long an open circuit waits before a probe, in milliseconds. -/
  backoffPeriodMillis : UInt64 := 1000
  /-- How long a look at the health is kept, in milliseconds. -/
  healthRefreshMillis : UInt64 := 500
deriving DecidableEq, Repr

namespace BreakerConfig

/-- The span of results looked at. -/
def trailingPeriod (c : BreakerConfig) : Duration := .ofMillis c.trailingPeriodMillis

/-- How long an open circuit waits before a probe. -/
def backoffPeriod (c : BreakerConfig) : Duration := .ofMillis c.backoffPeriodMillis

/-- How long a look at the health is kept. -/
def healthRefresh (c : BreakerConfig) : Duration := .ofMillis c.healthRefreshMillis

/-- Checks the settings: a percentage is one, and both periods have a length. -/
def validate (c : BreakerConfig) : Except Error Unit := do
  require (c.failurePercentageThreshold ≤ 100) .failurePercentage
  require (c.trailingPeriodMillis ≠ 0) .zeroTrailingPeriod
  require (c.backoffPeriodMillis ≠ 0) .zeroBackoffPeriod

/-- Whether the health is so bad that the circuit opens. -/
def isUnhealthy (c : BreakerConfig) (h : HealthSnapshot) : Bool :=
  c.failureThreshold < h.failures ||
    (c.failurePercentageThreshold < h.failurePercentage && c.sampleSizeThreshold ≤ h.total)

end BreakerConfig

/-- The state of a circuit. -/
inductive CircuitState where
  | closed
  /-- Requests are refused, but for one probe after each backoff. -/
  | opened
  /-- Requests are refused until the circuit is closed by hand. -/
  | forcedOpen
deriving DecidableEq, Repr

namespace CircuitState

/-- Every state, in order. -/
def all : List CircuitState := [closed, opened, forcedOpen]

/-- The number of a state. -/
def code : CircuitState → Nat
  | closed => 0
  | opened => 1
  | forcedOpen => 2

/-- The name of a state. -/
def label : CircuitState → String
  | closed => "closed"
  | opened => "open"
  | forcedOpen => "forced_open"

end CircuitState

/-- A circuit with its health. -/
structure CircuitBreaker where
  name : String
  config : BreakerConfig
  state : CircuitState := .closed
  /-- When the circuit was opened or last let a probe through. -/
  lastTested : UInt64 := 0
  health : HealthChecker
deriving DecidableEq, Repr

/-- A look at a circuit breaker. -/
structure BreakerStats where
  state : CircuitState
  health : HealthSnapshot
  /-- How long an open circuit still waits before a probe. -/
  backoffRemaining : Duration
deriving DecidableEq, Repr

namespace CircuitBreaker

variable {O R : Type} [Outcome O]

/-- A closed circuit with valid settings. -/
def make (name : String) (config : BreakerConfig) : Except Error CircuitBreaker := do
  config.validate
  return { name, config, health := .make config.trailingPeriod config.healthRefresh }

/-- The backoff in nanoseconds. -/
def backoff (b : CircuitBreaker) : UInt64 := b.config.backoffPeriod.toWord

/-- Whether requests may be refused. -/
def isOpen (b : CircuitBreaker) : Bool := b.state != .closed

/-- Whether the backoff has passed at `now`. -/
def probeIsDue (b : CircuitBreaker) (now : UInt64) : Bool :=
  b.backoff ≤ subSat now b.lastTested

/-- A request: whether it is admitted, and what is reported. -/
def acquire (b : CircuitBreaker) (now : UInt64) : CircuitBreaker × Bool × List (Diagnostic O R) :=
  match b.state with
  | .closed => (b, true, [])
  | .forcedOpen => (b, false, [])
  | .opened =>
    if b.probeIsDue now then ({ b with lastTested := now }, true, [.probeAdmitted b.name])
    else (b, false, [])

/-- A failure while the circuit is closed: the circuit opens if the health is bad. -/
def onFailure (b : CircuitBreaker) (metrics : RollingCounts O) (now : UInt64) :
    CircuitBreaker × List (Diagnostic O R) :=
  let (checker, snapshot) := b.health.health metrics now
  let b := { b with health := checker }
  if b.config.isUnhealthy snapshot then
    ({ b with state := .opened, lastTested := now }, [.breakerOpened b.name snapshot])
  else (b, [])

/-- The outcome of an action: a success closes an open circuit, and a failure is looked into by a
closed one. -/
def release (b : CircuitBreaker) (metrics : RollingCounts O) (outcome : O) (now : UInt64) :
    CircuitBreaker × List (Diagnostic O R) :=
  match b.state with
  | .opened =>
    if Outcome.isSuccess outcome then ({ b with state := .closed }, [.probeSucceeded b.name])
    else (b, [])
  | .closed => if Outcome.isFailure outcome then b.onFailure metrics now else (b, [])
  | .forcedOpen => (b, [])

/-- Refuses everything from now on. -/
def forceOpen (b : CircuitBreaker) : CircuitBreaker × List (Diagnostic O R) :=
  ({ b with state := .forcedOpen }, [.forcedOpen b.name])

/-- Lets requests pass again, and forgets when the circuit was last tested. -/
def forceClosed (b : CircuitBreaker) : CircuitBreaker × List (Diagnostic O R) :=
  ({ b with state := .closed, lastTested := 0 }, [.forcedClosed b.name])

/-- The state of the circuit at `now`. -/
def stats (b : CircuitBreaker) (now : UInt64) : BreakerStats where
  state := b.state
  health := b.health.cached
  backoffRemaining :=
    match b.state with
    | .opened => .ofNanos (subSat b.backoff (subSat now b.lastTested))
    | _ => ⟨0⟩

end CircuitBreaker

end Admission
