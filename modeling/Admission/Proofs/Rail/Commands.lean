import Admission.Scenario.Machine

/-!
# What commands on guard rails do

A command that names a guard rail looks it up, and either has no answer because there is none under
the name, or does with it what the guard rail does.

## Main results

* `run_find`: a look-up
* `Machine.start_acquire`, `Machine.start_release`, `Machine.start_releaseUnused`: a request by
  hand, and the returns
* `Machine.withPermits_eq`: a request whose permits a promise or a completable takes over
-/

namespace Admission.Scenario

variable {O : Type} [Outcome O]

theorem Bench.eq_missing_of_find {α : Type} {b : Bench O} {id : String} {kind : Handle → Option α}
    {e : Fault} (h : b.find id kind = .error e) : e = .missing id := by
  unfold Bench.find at h
  split at h
  · cases h
  · cases h
    rfl

theorem run_find {α : Type} (id : String) (kind : Handle → Option α) (b : Bench O) :
    (find id kind).run b = (b.find id kind).map (·, b) := by
  unfold find
  rw [StateT.run_bind]
  simp only [StateT.run_get, pure_bind]
  cases b.find id kind <;> rfl

theorem run_fetchRail (rail : String) (b : Bench O) :
    (fetchRail rail).run b =
      match b.find rail fun | .rail i => some i | _ => none with
      | .ok k => match b.rails[k]? with
        | some r => .ok (r, b)
        | none => .error (.missing rail)
      | .error e => .error e := by
  rw [fetchRail, StateT.run_bind, findRail, run_find]
  cases b.find rail _ with
  | error e => rfl
  | ok k =>
    change (fetch rail _ k).run b = _
    rw [fetch, StateT.run_bind]
    simp only [StateT.run_get, pure_bind]
    cases b.rails[k]? <;> rfl

namespace RailCommand

theorem run_acquire (rail : String) (units now : UInt64) (b : Bench O) :
    (RailCommand.acquire rail units now).run.run b =
      (b.find rail fun | .rail i => some i | _ => none).map fun k =>
        (.refusal (b.acquireFrom k units now).1, (b.acquireFrom k units now).2) := by
  rw [RailCommand.run, StateT.run_bind, findRail, run_find]
  cases b.find rail _ <;> rfl

theorem run_release (rail : String) (units : UInt64) (outcome : O) (start now : UInt64)
    (b : Bench O) :
    (RailCommand.release rail units outcome start now).run.run b =
      (b.find rail fun | .rail i => some i | _ => none).map fun k =>
        (.nothing, b.releaseTo k units outcome start now) := by
  rw [RailCommand.run, StateT.run_bind, findRail, run_find]
  cases b.find rail _ <;> rfl

theorem run_releaseUnused (rail : String) (units now : UInt64) (b : Bench O) :
    (RailCommand.releaseUnused rail units now).run.run b =
      match b.find rail fun | .rail i => some i | _ => none with
      | .ok k => match b.rails[k]? with
        | some r => .ok (.nothing, { b with plant := r.rail.releaseUnused units now b.plant })
        | none => .error (.missing rail)
      | .error e => .error e := by
  rw [RailCommand.run, StateT.run_bind, run_fetchRail]
  cases b.find rail _ with
  | error e => rfl
  | ok k =>
    dsimp only
    cases b.rails[k]? <;> rfl

end RailCommand

namespace Machine

theorem start_acquire (m : Machine O) (rail : String) (units now : UInt64) :
    m.start (.bench (.rail (.acquire rail units now))) =
      m.withFound (m.world.findRail rail) fun k =>
        (m.collect (m.world.bench.acquireFrom k units now).2).answer
          (.ok (.refusal (m.world.bench.acquireFrom k units now).1)) := by
  rw [start, BenchCommand.run, RailCommand.run_acquire]
  change _ = m.withFound (m.world.bench.find rail _) _
  cases h : m.world.bench.find rail (fun | .rail i => some i | _ => none) with
  | ok k => rfl
  | error e =>
    obtain rfl := Bench.eq_missing_of_find h
    rfl

theorem start_release (m : Machine O) (rail : String) (units : UInt64) (outcome : O)
    (begun now : UInt64) :
    m.start (.bench (.rail (.release rail units outcome begun now))) =
      m.withFound (m.world.findRail rail) fun k =>
        (m.collect (m.world.bench.releaseTo k units outcome begun now)).answer (.ok .nothing) := by
  rw [start, BenchCommand.run, RailCommand.run_release]
  change _ = m.withFound (m.world.bench.find rail _) _
  cases h : m.world.bench.find rail (fun | .rail i => some i | _ => none) with
  | ok k => rfl
  | error e =>
    obtain rfl := Bench.eq_missing_of_find h
    rfl

theorem start_releaseUnused (m : Machine O) (rail : String) (units now : UInt64) :
    m.start (.bench (.rail (.releaseUnused rail units now))) =
      m.withFound (m.world.findRail rail) fun k =>
        match m.world.bench.rails[k]? with
        | some r =>
          (m.collect { m.world.bench with
            plant := r.rail.releaseUnused units now m.world.bench.plant }).answer (.ok .nothing)
        | none => m.answer (.error (.missing rail)) := by
  rw [start, BenchCommand.run, RailCommand.run_releaseUnused]
  change _ = m.withFound (m.world.bench.find rail _) _
  cases h : m.world.bench.find rail (fun | .rail i => some i | _ => none) with
  | ok k =>
    dsimp only [withFound]
    cases m.world.bench.rails[k]? <;> rfl
  | error e =>
    obtain rfl := Bench.eq_missing_of_find h
    rfl

/-- Permits that a promise or a completable takes over are asked for first; a refusal makes
nothing. -/
theorem withPermits_eq (m : Machine O) (rail : String) (units now : UInt64)
    (f : Permits (Release O) → World O → World O) :
    m.withPermits rail units now false f =
      m.withFound (m.world.findRail rail) fun k =>
        match m.world.bench.acquireFrom k units now with
        | (some r, b) => (m.collect b).answer (.ok (Answer.refusal (some r)))
        | (none, b) => { m.collect b with
            world := f { units, start := now, release := .rail k }
              (m.collect b).world }.answer (.ok .nothing) := by
  unfold withPermits
  congr 1
  funext k
  rcases m.world.bench.acquireFrom k units now with ⟨_ | r, b⟩
  · rfl
  · rfl

end Machine

end Admission.Scenario
