import Admission.Outcome.Basic

/-!
# Vocabularies

The outcome vocabularies that a scenario can choose from, and the reasons for which the
components of this library refuse a request.

## Main definitions

* `ActionResult`: success, error, timeout and cancellation; a cancellation is no failure
* `HttpResult`: the results of a request over the network; all but one are failures
* `SingleResult`: a vocabulary of one outcome
* `Rejection`: why a request was refused
-/

namespace Admission

/-- The ordinary outcomes of an action. -/
inductive ActionResult where
  | success
  | error
  | timeout
  /-- The action was given up; this is neither a success nor a failure. -/
  | cancelled
deriving DecidableEq, Repr

instance : Outcome ActionResult where
  card := 4
  ordinal
    | .success => 0
    | .error => 1
    | .timeout => 2
    | .cancelled => 3
  ofOrdinal
    | 0 => .success
    | 1 => .error
    | 2 => .timeout
    | 3 => .cancelled
  name
    | .success => "Success"
    | .error => "Error"
    | .timeout => "Timeout"
    | .cancelled => "Cancelled"
  ofOrdinal_ordinal k := by cases k <;> rfl
  ordinal_ofOrdinal i := by revert i; decide
  isSuccess
    | .success => true
    | _ => false
  isFailure
    | .error => true
    | .timeout => true
    | _ => false
  timeout := .timeout
  cancelled := .cancelled

/-- The outcomes of a request over the network. -/
inductive HttpResult where
  | ok
  | serverError
  | timedOut
  | aborted
deriving DecidableEq, Repr

instance : Outcome HttpResult where
  card := 4
  ordinal
    | .ok => 0
    | .serverError => 1
    | .timedOut => 2
    | .aborted => 3
  ofOrdinal
    | 0 => .ok
    | 1 => .serverError
    | 2 => .timedOut
    | 3 => .aborted
  name
    | .ok => "Ok"
    | .serverError => "ServerError"
    | .timedOut => "TimedOut"
    | .aborted => "Aborted"
  ofOrdinal_ordinal k := by cases k <;> rfl
  ordinal_ofOrdinal i := by revert i; decide
  isSuccess
    | .ok => true
    | _ => false
  timeout := .timedOut
  cancelled := .aborted

/-- A vocabulary with one outcome, which is a success. -/
inductive SingleResult where
  | only
deriving DecidableEq, Repr

instance : Outcome SingleResult where
  card := 1
  ordinal _ := 0
  ofOrdinal _ := .only
  name _ := "Only"
  ofOrdinal_ordinal k := by cases k; rfl
  ordinal_ofOrdinal i := by revert i; decide
  isSuccess _ := true
  timeout := .only
  cancelled := .only

/-- The vocabulary without members. -/
instance : MetricKey Empty where
  card := 0
  ordinal k := k.elim
  ofOrdinal i := i.elim0
  name k := k.elim
  ofOrdinal_ordinal k := k.elim
  ordinal_ofOrdinal i := i.elim0

/-- Why a request was refused. -/
inductive Rejection where
  | maxConcurrency
  /-- The allowance of the current period is used up. -/
  | rateLimited
  | circuitOpen
deriving DecidableEq, Repr

instance : MetricKey Rejection where
  card := 3
  ordinal
    | .maxConcurrency => 0
    | .rateLimited => 1
    | .circuitOpen => 2
  ofOrdinal
    | 0 => .maxConcurrency
    | 1 => .rateLimited
    | 2 => .circuitOpen
  name
    | .maxConcurrency => "MaxConcurrencyLevelExceeded"
    | .rateLimited => "RateLimited"
    | .circuitOpen => "CircuitOpen"
  ofOrdinal_ordinal k := by cases k <;> rfl
  ordinal_ofOrdinal i := by revert i; decide

/-- The reason in words. -/
def Rejection.describe : Rejection → String
  | maxConcurrency => "max concurrency level exceeded"
  | rateLimited => "rate limited"
  | circuitOpen => "circuit open"

end Admission
