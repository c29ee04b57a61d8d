import Admission.Gate.Chain
import Admission.Latency.Interval
import Admission.Latency.Rolling

/-!
# Guard rails

A guard rail makes one decision over a chain of components. A request is granted by all of them or
refused, and a refusal leaves nothing held. Permits come back with the outcome of the action, which
is counted first, so that a circuit breaker judging the health already sees it.

## Main definitions

* `Observer`: who hears of the decisions of a guard rail
* `Plant`: what guard rails share: the state of the components, result counts, latencies, and the
  notes of what happened
* `GuardRail`: a chain with its own counts
* `GuardRail.acquire`, `GuardRail.release`, `GuardRail.releaseUnused`: a request, the return of
  permits with an outcome, and their return without one
-/

namespace Admission

/-- Who hears of the decisions of a guard rail. -/
inductive Observer where
  /-- One that notes every decision under its name. -/
  | noting (tag : String)
  /-- One that reports every decision as an event. -/
  | reporting
  | silent
deriving DecidableEq, Repr

/-- What guard rails share with each other and with the rest of the world. -/
structure Plant (γ O R : Type) [Outcome O] where
  components : γ
  results : Array (RollingCounts O)
  rollingLatencies : Array (RollingLatency O)
  intervalLatencies : Array (IntervalLatency O)
  notes : List (Note O R)

/-- Notes what happened. -/
def Plant.tell {γ O R : Type} [Outcome O] (p : Plant γ O R) (notes : List (Note O R)) :
    Plant γ O R :=
  { p with notes := p.notes ++ notes }

/-- A chain of components with its counts. -/
structure GuardRail (κ O R : Type) [Outcome O] [MetricKey R] where
  name : String
  /-- The components, in the order in which they are asked. -/
  chain : List κ
  observers : List Observer
  results : Nat
  /-- The place of the latencies that can be looked back over. -/
  rollingLatency : Option Nat
  /-- The place of the latencies since the previous look. -/
  intervalLatency : Option Nat
  /-- The units refused, per reason and slot of time. -/
  rejections : RollingCounts R
  resultTotals : Counts O := .zero
  rejectionTotals : Counts R := .zero

namespace GuardRail

variable {κ γ O R : Type} [Outcome O] [MetricKey R] [Backpressure κ γ O R]

/-- Tells the observers that permits were granted. -/
def acquiredNotes (rail : GuardRail κ O R) (units now : UInt64) : List (Note O R) :=
  rail.observers.filterMap fun
    | .noting tag => some (.acquired tag rail.name units now)
    | .reporting => some (.diagnostic (.permitsAcquired rail.name units now))
    | .silent => none

/-- Tells the observers that a request was refused. -/
def rejectedNotes (rail : GuardRail κ O R) (units : UInt64) (reason : R) (now : UInt64) :
    List (Note O R) :=
  rail.observers.filterMap fun
    | .noting tag => some (.rejected tag rail.name units reason now)
    | .reporting => some (.diagnostic (.permitsRejected rail.name units reason now))
    | .silent => none

/-- Tells the observers that permits came back with an outcome. -/
def releasedNotes (rail : GuardRail κ O R) (units : UInt64) (outcome : O) (now : UInt64) :
    List (Note O R) :=
  rail.observers.filterMap fun
    | .noting tag => some (.released tag rail.name units outcome now)
    | .reporting => some (.diagnostic (.permitsReleased rail.name units outcome now))
    | .silent => none

/-- Counts a refusal. -/
def countRejection (rail : GuardRail κ O R) (units : UInt64) (reason : R) (now : UInt64) :
    GuardRail κ O R :=
  { rail with
    rejections := rail.rejections.add reason units now
    rejectionTotals := rail.rejectionTotals.add reason units }

/-- Asks every component for `units` permits, all or nothing: the reason of a refusal, or nothing
when they are granted. -/
def acquire (rail : GuardRail κ O R) (units now : UInt64) (p : Plant γ O R) :
    Option R × GuardRail κ O R × Plant γ O R :=
  match Chain.acquire units now rail.chain p.components with
  | (none, components, notes) =>
    (none, rail, { p with components }.tell (notes ++ rail.acquiredNotes units now))
  | (some (reason, component), components, notes) =>
    let refused : Note O R := .diagnostic
      (.requestRejected rail.name (Backpressure.name (O := O) (R := R) components component) units)
    (some reason, rail.countRejection units reason now,
      { p with components }.tell (notes ++ refused :: rail.rejectedNotes units reason now))

/-- Counts a result and its latency at the places that the guard rail shares. -/
def recordResult (rail : GuardRail κ O R) (units : UInt64) (outcome : O) (start now : UInt64)
    (p : Plant γ O R) : Plant γ O R :=
  let latency := subSat now start
  { p with
    results := p.results.modify rail.results (·.add outcome units now)
    rollingLatencies := match rail.rollingLatency with
      | some i => p.rollingLatencies.modify i (·.record outcome latency now)
      | none => p.rollingLatencies
    intervalLatencies := match rail.intervalLatency with
      | some i => p.intervalLatencies.modify i (·.record outcome latency)
      | none => p.intervalLatencies }

/-- Returns `units` permits that were granted at `start`, with the outcome of the action. The result
is counted before the components get their permits back. -/
def release (rail : GuardRail κ O R) (units : UInt64) (outcome : O) (start now : UInt64)
    (p : Plant γ O R) : GuardRail κ O R × Plant γ O R :=
  -- A circuit breaker in the chain judges the health with this result in it.
  let p := rail.recordResult units outcome start now p
  let (components, notes) := Chain.release units outcome now p.results rail.chain p.components
  ({ rail with resultTotals := rail.resultTotals.add outcome units },
    { p with components }.tell (notes ++ rail.releasedNotes units outcome now))

/-- Returns `units` permits that were granted and never used. Nothing is counted. -/
def releaseUnused (rail : GuardRail κ O R) (units now : UInt64) (p : Plant γ O R) : Plant γ O R :=
  let (components, notes) := Chain.releaseUnused units now rail.chain p.components
  { p with components }.tell notes

/-! ## Small facts -/

variable {rail : GuardRail κ O R} {units now start : UInt64} {outcome : O} {plant : Plant γ O R}

/-- The answer and the components after a request are those of the chain. -/
theorem acquire_components (rail : GuardRail κ O R) (units now : UInt64) (plant : Plant γ O R) :
    (rail.acquire units now plant).1 =
        (Chain.acquire (O := O) units now rail.chain plant.components).1.map (·.1) ∧
      (rail.acquire units now plant).2.2.components =
        (Chain.acquire (O := O) (R := R) units now rail.chain plant.components).2.1 := by
  unfold acquire
  rcases Chain.acquire (O := O) (R := R) units now rail.chain plant.components with
    ⟨_ | ⟨reason, component⟩, components, notes⟩
  · exact ⟨rfl, rfl⟩
  · exact ⟨rfl, rfl⟩

@[simp] theorem chain_acquire : (rail.acquire units now plant).2.1.chain = rail.chain := by
  unfold acquire
  split <;> rfl

@[simp] theorem results_acquire : (rail.acquire units now plant).2.1.results = rail.results := by
  unfold acquire
  split <;> rfl

@[simp] theorem plant_results_acquire :
    (rail.acquire units now plant).2.2.results = plant.results := by
  unfold acquire
  split <;> rfl

omit [Backpressure κ γ O R] in
theorem results_recordResult (rail : GuardRail κ O R) (units : UInt64) (outcome : O)
    (start now : UInt64) (plant : Plant γ O R) :
    (rail.recordResult units outcome start now plant).results[rail.results]? =
      plant.results[rail.results]?.map (·.add outcome units now) := by
  simp [recordResult, Array.getElem?_modify]

@[simp] theorem chain_release :
    (rail.release units outcome start now plant).1.chain = rail.chain := rfl

@[simp] theorem results_release :
    (rail.release units outcome start now plant).1.results = rail.results := rfl

@[simp] theorem plant_results_release : (rail.release units outcome start now plant).2.results =
    (rail.recordResult units outcome start now plant).results := rfl

theorem components_release (rail : GuardRail κ O R) (units : UInt64) (outcome : O)
    (start now : UInt64) (plant : Plant γ O R) :
    (rail.release units outcome start now plant).2.components =
      (Chain.release (R := R) units outcome now
        (rail.recordResult units outcome start now plant).results rail.chain plant.components).1 :=
  rfl

theorem components_releaseUnused (rail : GuardRail κ O R) (units now : UInt64)
    (plant : Plant γ O R) :
    (rail.releaseUnused units now plant).components =
      (Chain.releaseUnused (O := O) (R := R) units now rail.chain plant.components).1 :=
  rfl

end GuardRail

end Admission
