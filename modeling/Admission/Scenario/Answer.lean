import Admission.Completion
import Admission.Gate.Basic
import Admission.Latency.Interval

/-!
# Answers

What the commands of a scenario answer, and what its callbacks leave in the log.

## Main definitions

* `Fault`: why a command has no answer
* `Answer O`, `Reply O`: the answer of a command, or why there is none
* `Entry O`: an entry of the log
-/

namespace Admission.Scenario

/-- Why a command has no answer. -/
inductive Fault where
  | error (e : Error)
  /-- It named an object that does not exist, or is of another kind. -/
  | missing (id : String)
  | panicked (message : String)
deriving DecidableEq, Repr

/-- The answer of a command. -/
inductive Answer (O : Type) where
  | nothing
  | truth (b : Bool)
  | number (n : Nat)
  | item (i : Int64)
  | text (s : String)
  | duration (d : Duration)
  | tuple (values : List (Answer O))
  | health (h : HealthSnapshot)
  | breakerConfig (c : BreakerConfig)
  | breakerStats (s : BreakerStats)
  /-- A distribution, with the percentages that are asked for. -/
  | distribution (d : Distribution) (percentages : List Float)
  /-- The distributions of the keys that have one, and of all keys together. -/
  | capture (keys : List (O × Distribution)) (merged : Distribution) (percentages : List Float)
  /-- Buckets with their counts in the order of the keys. -/
  | buckets (rows : List (Window.Interval (List UInt64)))
  /-- Steps of a walk over a window of cells; a step past the end finds nothing. -/
  | steps (rows : List (Option (Window.Interval UInt64)))
  /-- All units returned per outcome and refused per reason, with their sums. -/
  | totals (results rejections : List UInt64) (resultTotal rejectionTotal : UInt64)
  /-- Recent units returned per outcome and refused per reason. -/
  | recent (results rejections : List UInt64)
  | recentBuckets (results rejections : List (Window.Interval (List UInt64)))
  | railParts (name : String) (gates : List String) (rolling interval : Option UInt64)
  | completion (c : Completion O)
  | value (v : String)
  /-- The end of an action that did not succeed. -/
  | failure (c : Completion O)
  /-- An action that has not ended; its waker is registered. -/
  | pending
  | serviceParts (name : String) (pending : Nat) (accepting : Bool) (maxTimeout : Duration)
  /-- How many tasks a timeout service still has. -/
  | pendingTasks (n : Nat)
  | accepting (b : Bool)
  /-- An item was taken over by a queue. -/
  | offered
  /-- A queue had no place for the item. -/
  | full (i : Int64)
  | interrupted
  /-- What a command answered while somebody waited, and what the wait brought. -/
  | waited (reply : Except Fault (Answer O)) (c : Completion O)

/-- The answer of a command, or why there is none. -/
abbrev Reply (O : Type) := Except Fault (Answer O)

/-- An answer that may be absent. -/
def Answer.ofOption {O α : Type} (f : α → Answer O) : Option α → Answer O
  | some a => f a
  | none => .nothing

/-- A word as an answer. -/
def Answer.word {O : Type} (n : UInt64) : Answer O := .number n.toNat

/-- The reason of a refusal, if there was one. -/
def Answer.refusal {O : Type} : Option Rejection → Answer O :=
  .ofOption fun r => .text (MetricKey.name r)

/-- An entry of the log. -/
inductive Entry (O : Type) where
  /-- Something told while permits were granted and returned. -/
  | note (n : Note O Rejection)
  /-- Permits came back to a release function of their own. -/
  | permits (id : String) (units : UInt64) (outcome : O) (start now : UInt64)
  | listener (tag : String) (c : Completion O)
  | wake (tag : String)
  | timeout (tag : String)
  /-- An action of a callback was carried out. -/
  | action (name : String) (reply : Reply O)

end Admission.Scenario
