import Admission.Outcome.Basic

/-!
# Completions

How an admitted action ends: with a value, with an error, by running out of time or by being given
up. Both values and errors are texts.

## Main definitions

* `Status`: whether an action is pending, and how it ended otherwise
* `Completion O`: the end of an action, with its outcome
-/

namespace Admission

/-- How far an action is. -/
inductive Status where
  | pending
  | success
  | error
  | timeout
  | cancelled
deriving DecidableEq, Repr

namespace Status

/-- Whether the action has ended. -/
def isTerminal (s : Status) : Bool := s != .pending

/-- The name of a status. -/
def label : Status → String
  | pending => "Pending"
  | success => "Success"
  | error => "Error"
  | timeout => "Timeout"
  | cancelled => "Cancelled"

end Status

/-- The end of an action. -/
inductive Completion (O : Type) where
  | success (outcome : O) (value : String)
  | error (outcome : O) (error : String)
  | timeout
  | cancelled
deriving DecidableEq, Repr

namespace Completion

variable {O : Type}

/-- The outcome that a completion is counted as. -/
def outcome [Outcome O] : Completion O → O
  | success o _ => o
  | error o _ => o
  | timeout => Outcome.timeout
  | cancelled => Outcome.cancelled

/-- The status after a completion. -/
def status : Completion O → Status
  | success _ _ => .success
  | error _ _ => .error
  | timeout => .timeout
  | cancelled => .cancelled

/-- The value, if there is one. -/
def value? : Completion O → Option String
  | success _ v => some v
  | _ => none

/-- The error, if there is one. -/
def error? : Completion O → Option String
  | error _ e => some e
  | _ => none

theorem status_isTerminal (c : Completion O) : c.status.isTerminal = true := by
  cases c <;> rfl

end Completion

end Admission
