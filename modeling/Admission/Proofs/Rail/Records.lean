import Admission.Proofs.Counts.Trailing
import Admission.Rail.Basic

/-!
# What a guard rail records

A guard rail counts what it refuses and what comes back with an outcome, by units, and it gives each
of its latency recorders one value for every return with an outcome. These records are told by the
events that concern the guard rail: refusals and admissions, returns with an outcome, and returns of
permits that were not used. Only refusals are counted as refusals, and only returns with an outcome
enter the results and latencies.

## Main definitions

* `Recording O`, `RailEvent O R`: a return with an outcome, and all that concerns a guard rail
* `RailRecords O R`, `GuardRail.records`: the records of a guard rail
* `RailRecords.after`: the records after some events

## Main results

* `RailRecords.get_rejectionTotals_after`, `RailRecords.get_resultTotals_after`: the totals are sums
  of units
* `GuardRail.records_acquire`, `GuardRail.records_release`, `GuardRail.records_releaseUnused`: a
  request and the returns are one event each
-/

namespace Admission

variable {O R : Type}

/-! ## Events -/

/-- A return of permits with an outcome. -/
structure Recording (O : Type) where
  units : UInt64
  outcome : O
  /-- When the permits were granted. -/
  start : UInt64
  now : UInt64

namespace Recording

/-- What is counted of a return. -/
def tally (r : Recording O) : Tally O := ⟨r.outcome, r.units, r.now⟩

/-- How long the permits were held; nothing if the clock went back. -/
def latency (r : Recording O) : UInt64 := subSat r.now r.start

end Recording

/-- What concerns a guard rail. -/
inductive RailEvent (O R : Type) where
  | refused (t : Tally R)
  | admitted (units : UInt64)
  | recorded (r : Recording O)
  /-- Permits came back that were not used. -/
  | unused (units : UInt64)

namespace RailEvent

/-- The refusals among events. -/
def refusals (events : List (RailEvent O R)) : List (Tally R) :=
  events.filterMap fun | refused t => some t | _ => none

/-- The returns with an outcome among events. -/
def recordings (events : List (RailEvent O R)) : List (Recording O) :=
  events.filterMap fun | recorded r => some r | _ => none

/-- The units that were admitted. -/
def admittedUnits (events : List (RailEvent O R)) : Nat :=
  (events.map fun | admitted units => units.toNat | _ => 0).sum

/-- The units that came back with an outcome. -/
def recordedUnits (events : List (RailEvent O R)) : Nat :=
  Tally.amount ((recordings events).map Recording.tally)

/-- The units that came back and were not used. -/
def unusedUnits (events : List (RailEvent O R)) : Nat :=
  (events.map fun | unused units => units.toNat | _ => 0).sum

variable (events more : List (RailEvent O R))

theorem refusals_append : refusals (events ++ more) = refusals events ++ refusals more :=
  List.filterMap_append

theorem recordings_append : recordings (events ++ more) = recordings events ++ recordings more :=
  List.filterMap_append

theorem admittedUnits_append :
    admittedUnits (events ++ more) = admittedUnits events + admittedUnits more := by
  rw [admittedUnits, List.map_append, List.sum_append, admittedUnits, admittedUnits]

theorem recordedUnits_append :
    recordedUnits (events ++ more) = recordedUnits events + recordedUnits more := by
  rw [recordedUnits, recordings_append, List.map_append, Tally.amount_append, recordedUnits,
    recordedUnits]

theorem unusedUnits_append : unusedUnits (events ++ more) =
    unusedUnits events + unusedUnits more := by
  rw [unusedUnits, List.map_append, List.sum_append, unusedUnits, unusedUnits]

end RailEvent

/-! ## Records -/

variable [Outcome O] [MetricKey R]

/-- What a guard rail has recorded, at its own places and at those that it shares. -/
@[ext] structure RailRecords (O R : Type) [Outcome O] [MetricKey R] where
  resultTotals : Counts O
  rejectionTotals : Counts R
  rejections : RollingCounts R
  results : Option (RollingCounts O)
  rollingLatency : Option (RollingLatency O)
  intervalLatency : Option (IntervalLatency O)

namespace RailRecords

open RailEvent (refusals recordings)

/-- The records after some events: refusals are counted, returns with an outcome are counted and
each gives one latency to every recorder, and nothing else leaves a trace. -/
def after (first : RailRecords O R) (events : List (RailEvent O R)) : RailRecords O R where
  resultTotals := (recordings events).foldl (fun c r => c.add r.outcome r.units) first.resultTotals
  rejectionTotals := (refusals events).foldl (fun c t => c.add t.key t.delta) first.rejectionTotals
  rejections := (refusals events).foldl (fun c t => c.add t.key t.delta t.now) first.rejections
  results := first.results.map fun c =>
    (recordings events).foldl (fun c r => c.add r.outcome r.units r.now) c
  rollingLatency := first.rollingLatency.map fun l =>
    (recordings events).foldl (fun l r => l.record r.outcome r.latency r.now) l
  intervalLatency := first.intervalLatency.map fun l =>
    (recordings events).foldl (fun l r => l.record r.outcome r.latency) l

theorem after_nil (first : RailRecords O R) : first.after [] = first := by
  obtain ⟨_, _, _, _, _, _⟩ := first
  simp [after, RailEvent.refusals, RailEvent.recordings]

theorem after_append (first : RailRecords O R) (events more : List (RailEvent O R)) :
    first.after (events ++ more) = (first.after events).after more := by
  simp only [after, RailEvent.refusals_append, RailEvent.recordings_append, List.foldl_append,
    Option.map_map, Function.comp_def]

/-- The totals of refusals are the units that were refused. -/
theorem get_rejectionTotals_after [DecidableEq R] {first : RailRecords O R}
    (h : first.rejectionTotals = .zero) (events : List (RailEvent O R)) (reason : R) :
    (first.after events).rejectionTotals.get reason =
      UInt64.ofNat (Tally.amount ((refusals events).filter (·.key = reason))) := by
  rw [← Counts.get_ofTallies, Counts.ofTallies, ← h]
  rfl

theorem resultTotals_after {first : RailRecords O R} (h : first.resultTotals = .zero)
    (events : List (RailEvent O R)) :
    (first.after events).resultTotals =
      Counts.ofTallies ((recordings events).map Recording.tally) := by
  rw [Counts.ofTallies, List.foldl_map, ← h]
  rfl

/-- The totals of results are the units that came back with an outcome. -/
theorem get_resultTotals_after [DecidableEq O] {first : RailRecords O R}
    (h : first.resultTotals = .zero) (events : List (RailEvent O R)) (outcome : O) :
    (first.after events).resultTotals.get outcome = UInt64.ofNat
      (Tally.amount (((recordings events).map Recording.tally).filter (·.key = outcome))) := by
  rw [resultTotals_after h, Counts.get_ofTallies]

theorem total_resultTotals_after {first : RailRecords O R} (h : first.resultTotals = .zero)
    (events : List (RailEvent O R)) :
    (first.after events).resultTotals.total = UInt64.ofNat (RailEvent.recordedUnits events) := by
  rw [resultTotals_after h, Counts.total_eq_totalWhere, Counts.totalWhere_ofTallies,
    List.filter_true, RailEvent.recordedUnits]

/-- Without a return with an outcome no result changes, and no latency. -/
theorem results_after_of_recordings_eq_nil (first : RailRecords O R) {events : List (RailEvent O R)}
    (h : recordings events = []) :
    (first.after events).resultTotals = first.resultTotals ∧
      (first.after events).results = first.results ∧
      (first.after events).rollingLatency = first.rollingLatency ∧
      (first.after events).intervalLatency = first.intervalLatency := by
  simp only [after, h, List.foldl_nil, Option.map_id', and_self]

end RailRecords

/-! ## Requests and returns -/

namespace GuardRail

variable {κ γ : Type}

/-- The records of a guard rail. -/
def records (rail : GuardRail κ O R) (p : Plant γ O R) : RailRecords O R where
  resultTotals := rail.resultTotals
  rejectionTotals := rail.rejectionTotals
  rejections := rail.rejections
  results := p.results[rail.results]?
  rollingLatency := rail.rollingLatency.bind (p.rollingLatencies[·]?)
  intervalLatency := rail.intervalLatency.bind (p.intervalLatencies[·]?)

variable [Backpressure κ γ O R] (rail : GuardRail κ O R) (units now : UInt64) (p : Plant γ O R)

/-- What a request comes to. -/
def answerEvent (units now : UInt64) : Option R → RailEvent O R
  | none => .admitted units
  | some reason => .refused ⟨reason, units, now⟩

/-- A request leaves a trace only if it is refused. -/
theorem records_acquire :
    (rail.acquire units now p).2.1.records (rail.acquire units now p).2.2 =
      (rail.records p).after [answerEvent units now (rail.acquire units now p).1] := by
  unfold acquire
  rcases Chain.acquire units now rail.chain p.components with
    ⟨_ | ⟨reason, component⟩, components, notes⟩
  · simp [records, RailRecords.after, answerEvent, RailEvent.refusals, RailEvent.recordings,
      Plant.tell]
  · simp [records, RailRecords.after, answerEvent, RailEvent.refusals, RailEvent.recordings,
      Plant.tell, countRejection]

/-- A return with an outcome is recorded everywhere. -/
theorem records_release (outcome : O) (start : UInt64) :
    (rail.release units outcome start now p).1.records (rail.release units outcome start now p).2 =
      (rail.records p).after [.recorded ⟨units, outcome, start, now⟩] := by
  have hrolling : rail.rollingLatency.bind
      ((rail.recordResult units outcome start now p).rollingLatencies[·]?) =
        (rail.rollingLatency.bind (p.rollingLatencies[·]?)).map
          (·.record outcome (subSat now start) now) := by
    cases h : rail.rollingLatency with
    | none => rfl
    | some j => simp [recordResult, h, Array.getElem?_modify]
  have hinterval : rail.intervalLatency.bind
      ((rail.recordResult units outcome start now p).intervalLatencies[·]?) =
        (rail.intervalLatency.bind (p.intervalLatencies[·]?)).map
          (·.record outcome (subSat now start)) := by
    cases h : rail.intervalLatency with
    | none => rfl
    | some j => simp [recordResult, h, Array.getElem?_modify]
  exact RailRecords.ext rfl rfl rfl (rail.results_recordResult units outcome start now p) hrolling
    hinterval

/-- Unused permits leave no trace when they come back. -/
theorem records_releaseUnused :
    rail.records (rail.releaseUnused units now p) = (rail.records p).after [.unused units] := by
  simp [records, RailRecords.after, RailEvent.refusals, RailEvent.recordings,
    releaseUnused, Plant.tell]

end GuardRail

end Admission
