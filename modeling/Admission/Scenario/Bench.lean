import Admission.Handoff.Parking
import Admission.Rail.Basic
import Admission.Scenario.Answer
import Admission.Window.Cells

/-!
# The bench

The objects of a scenario that never call back, and the names under which objects of all kinds are
known. A name can be given anew at any time; an object that others refer to stays.

## Main definitions

* `Handle`: the kind and the place of an object
* `Bench O`: the objects
* `BenchM O`: commands on the bench, which may have no answer
* `Bench.find`: the object of a wanted kind under a name
-/

namespace Admission.Scenario

/-- The kind of an object, and its place among the objects of that kind. -/
inductive Handle where
  | clock (i : Nat)
  | counts (i : Nat)
  /-- Counts per key that are kept for ever. -/
  | totals (i : Nat)
  | rolling (i : Nat)
  | window (i : Nat)
  | cell (window cell : Nat)
  | recorder (i : Nat)
  | histogram (i : Nat)
  | accumulator (i : Nat)
  | intervalLatency (i : Nat)
  | rollingLatency (i : Nat)
  | gate (i : Nat)
  | checker (i : Nat)
  | rail (i : Nat)
  /-- A queue from one producer to one consumer. -/
  | queue (i : Nat)
  | promise (i : Nat)
  | future (i : Nat)
  | completable (i : Nat)
  | deadlines (i : Nat)
  | service (i : Nat)
deriving DecidableEq, Repr

/-- A health checker with the place of the results that it judges by. -/
structure PlacedChecker where
  checker : HealthChecker
  metrics : Nat
deriving DecidableEq, Repr

/-- A guard rail with the place of its clock; a rail without one reads the time zero. -/
structure PlacedRail (O : Type) [Outcome O] where
  rail : GuardRail Nat O Rejection
  clock : Option Nat

/-- The objects that never call back. -/
structure Bench (O : Type) [Outcome O] where
  names : List (String × Handle) := []
  clocks : Array Clock := #[]
  counters : Array (Counts O) := #[]
  windows : Array CellWindow := #[]
  recorders : Array (Recorder UInt64) := #[]
  histograms : Array Histogram := #[]
  accumulators : Array (LatencyAccumulator O) := #[]
  checkers : Array PlacedChecker := #[]
  queues : Array (Exchange Int64) := #[]
  rails : Array (PlacedRail O) := #[]
  /-- The gates, result counts and latencies, which guard rails share. -/
  plant : Plant (Array Gate) O Rejection := ⟨#[], #[], #[], #[], []⟩

/-- Commands on the bench. One without an answer leaves the bench as it was. -/
abbrev BenchM (O : Type) [Outcome O] := StateT (Bench O) (Except Fault)

/-- A step that the library may refuse. -/
def attempt {O α : Type} [Outcome O] : Except Error α → BenchM O α
  | .ok a => pure a
  | .error e => throw (.error e)

/-- Asks for memory for a ring. A place takes eight bytes, and a ring whose bytes no machine could
address is met with a panic. -/
def reserve {O : Type} [Outcome O] (places : Nat) : BenchM O Unit :=
  if 1 <<< 60 ≤ ceilPow2 places then throw (.panicked "capacity overflow") else pure ()

/-- The shape of a window with the given measures, if its ring fits into memory. -/
def makeShape {O : Type} [Outcome O] (buckets : UInt64) (width : Duration) (start : UInt64) :
    BenchM O Window.Shape := do
  let shape ← attempt (Window.Shape.make buckets width start)
  reserve buckets.toNat
  return shape

namespace Bench

variable {O : Type} [Outcome O]

/-- The object under a name. -/
def lookup (b : Bench O) (id : String) : Option Handle := b.names.lookup id

/-- Gives a name to an object. -/
def bind (b : Bench O) (id : String) (h : Handle) : Bench O :=
  { b with names := (id, h) :: b.names }

/-- The place of the object of a wanted kind under a name. -/
def find {α : Type} (b : Bench O) (id : String) (kind : Handle → Option α) : Except Fault α :=
  match (b.lookup id).bind kind with
  | some a => .ok a
  | none => .error (.missing id)

/-- The reading of the clock of a guard rail. -/
def railTime (b : Bench O) (clock : Option Nat) : UInt64 :=
  ((clock.bind (b.clocks[·]?)).map (·.now)).getD 0

theorem lookup_bind_self (b : Bench O) (id : String) (h : Handle) :
    (b.bind id h).lookup id = some h := by
  simp [lookup, bind]

theorem lookup_bind_of_ne (b : Bench O) {id other : String} (h : Handle) (hne : other ≠ id) :
    (b.bind id h).lookup other = b.lookup other := by
  have : (other == id) = false := by simpa using hne
  simp [lookup, bind, this, List.lookup_cons]

end Bench

variable {O : Type} [Outcome O]

/-- The place of the object of a wanted kind under a name. -/
def find {α : Type} (id : String) (kind : Handle → Option α) : BenchM O α := do
  match (← get).find id kind with
  | .ok a => pure a
  | .error f => throw f

/-- Gives a name to an object. -/
def bind (id : String) (h : Handle) : BenchM O Unit := modify (·.bind id h)

/-- The object at a place. Places are never taken away, so a place that a name leads to is
filled. -/
def fetch {α : Type} (id : String) (pool : Bench O → Array α) (i : Nat) : BenchM O α := do
  match (pool (← get))[i]? with
  | some a => pure a
  | none => throw (.missing id)

end Admission.Scenario
