import Admission.Health

/-!
# Diagnostics

The events that the library reports about itself while it works: each has a level, a message and
named fields.

## Main definitions

* `Level`: how important an event is
* `Diagnostic O R`: the events, for a vocabulary of outcomes and one of refusals
* `Diagnostic.level`, `Diagnostic.message`, `Diagnostic.fields`: how an event is reported
-/

namespace Admission

/-- The importance of an event. -/
inductive Level where
  | error
  | warn
  | info
  | debug
  | trace
deriving DecidableEq, Repr

/-- The name of a level in capitals. -/
def Level.label : Level → String
  | error => "ERROR"
  | warn => "WARN"
  | info => "INFO"
  | debug => "DEBUG"
  | trace => "TRACE"

/-- The name of a level in settings. -/
def Level.name : Level → String
  | error => "error"
  | warn => "warn"
  | info => "info"
  | debug => "debug"
  | trace => "trace"

/-- The level with a name. -/
def Level.ofName? (name : String) : Option Level :=
  [error, warn, info, debug, trace].find? fun l => l.name == name

theorem Level.ofName?_name (l : Level) : Level.ofName? l.name = some l := by
  cases l <;> rfl

/-- The value of a field of an event. -/
inductive FieldValue where
  | number (n : Nat)
  | text (s : String)
deriving DecidableEq, Repr

/-- What the library reports about itself. -/
inductive Diagnostic (O R : Type) where
  /-- A guard rail was put together from a number of components. -/
  | railBuilt (rail : String) (components : Nat)
  | requestRejected (rail component : String) (units : UInt64)
  | permitsAcquired (rail : String) (units now : UInt64)
  /-- An observer heard that a request was refused. -/
  | permitsRejected (rail : String) (units : UInt64) (reason : R) (now : UInt64)
  | permitsReleased (rail : String) (units : UInt64) (outcome : O) (now : UInt64)
  /-- A circuit breaker opened because of its health. -/
  | breakerOpened (breaker : String) (health : HealthSnapshot)
  /-- An open circuit breaker let a probe through. -/
  | probeAdmitted (breaker : String)
  /-- A probe succeeded, and the circuit breaker closed. -/
  | probeSucceeded (breaker : String)
  | forcedOpen (breaker : String)
  | forcedClosed (breaker : String)
  | serviceStarted (service : String)
  | serviceStopped (service : String)

namespace Diagnostic

variable {O R : Type}

/-- The importance of an event. -/
def level : Diagnostic O R → Level
  | railBuilt .. => .debug
  | requestRejected .. => .trace
  | permitsAcquired .. => .trace
  | permitsRejected .. => .debug
  | permitsReleased .. => .trace
  | breakerOpened .. => .warn
  | probeAdmitted .. => .debug
  | probeSucceeded .. => .info
  | forcedOpen .. => .warn
  | forcedClosed .. => .warn
  | serviceStarted .. => .info
  | serviceStopped .. => .info

/-- The message of an event. -/
def message : Diagnostic O R → String
  | railBuilt .. => "Guard rail built"
  | requestRejected .. => "Permit request rejected"
  | permitsAcquired .. => "Permits acquired"
  | permitsRejected .. => "Permits rejected"
  | permitsReleased .. => "Permits released"
  | breakerOpened .. => "Circuit breaker opened"
  | probeAdmitted .. => "Circuit breaker admitting probe"
  | probeSucceeded .. => "Circuit breaker closed after successful probe"
  | forcedOpen .. => "Circuit breaker forced open"
  | forcedClosed .. => "Circuit breaker forced closed"
  | serviceStarted .. => "Timeout service started"
  | serviceStopped .. => "Timeout service stopped"

/-- A field that holds a word. -/
def word (key : String) (n : UInt64) : String × FieldValue := (key, .number n.toNat)

/-- A field that holds a text. -/
def text (key value : String) : String × FieldValue := (key, .text value)

/-- The fields of an event. -/
def fields [MetricKey O] [MetricKey R] : Diagnostic O R → List (String × FieldValue)
  | railBuilt rail n => [text "guard_rail" rail, ("components", .number n)]
  | requestRejected rail component units =>
    [text "guard_rail" rail, text "component" component, word "units" units]
  | permitsAcquired rail units now =>
    [text "guard_rail" rail, word "units" units, word "now" now]
  | permitsRejected rail units reason now =>
    [text "guard_rail" rail, word "units" units, word "now" now,
      text "rejection" (MetricKey.name reason)]
  | permitsReleased rail units outcome now =>
    [text "guard_rail" rail, word "units" units, word "now" now,
      text "outcome" (MetricKey.name outcome)]
  | breakerOpened breaker health =>
    [text "breaker" breaker, word "failures" health.failures, word "total" health.total,
      ("failure_percentage", .number health.failurePercentage.toNat)]
  | probeAdmitted breaker => [text "breaker" breaker]
  | probeSucceeded breaker => [text "breaker" breaker]
  | forcedOpen breaker => [text "breaker" breaker]
  | forcedClosed breaker => [text "breaker" breaker]
  | serviceStarted service => [text "service" service]
  | serviceStopped service => [text "service" service]

end Diagnostic

end Admission
