import Admission.Scenario.Termination

/-!
# Steps and runs of the machine

A run goes on until the agenda is empty, so it may be cut anywhere: the run from a later machine
ends as the run from an earlier one. The services that the machine retires change the log and the
services only.

## Main results

* `run_step`, `run_of_agenda_eq_nil`: a run, step by step
* `perform_eq`: a command, from the machine that it starts
* `retire_eq`: what retirement changes
-/

namespace Admission.Scenario

variable {O : Type} [Outcome O]

namespace Machine

variable {m : Machine O}

/-! ## Runs -/

theorem steps_of_agenda_eq_nil (h : m.agenda = []) (n : Nat) : steps n m = m := by
  cases n with
  | zero => rfl
  | succ n => rw [steps, h]

theorem steps_succ (h : m.agenda ≠ []) (n : Nat) : steps (n + 1) m = steps n m.step := by
  rw [steps]
  split
  · contradiction
  · rfl

/-- A machine comes to rest in one way only. -/
theorem steps_eq_of_agenda_eq_nil {n k : Nat} (hn : (steps n m).agenda = [])
    (hk : (steps k m).agenda = []) : steps n m = steps k m := by
  induction n generalizing m k with
  | zero => exact (steps_of_agenda_eq_nil hn k).symm
  | succ n ih =>
    by_cases h : m.agenda = []
    · rw [steps_of_agenda_eq_nil h, steps_of_agenda_eq_nil h]
    · cases k with
      | zero => exact absurd hk h
      | succ k =>
        rw [steps_succ h] at hn hk ⊢
        rw [steps_succ h]
        exact ih hn hk

theorem run_of_agenda_eq_nil (h : m.agenda = []) : m.run = m := steps_of_agenda_eq_nil h _

/-- The first step of a run changes nothing about its end. -/
theorem run_step (h : m.agenda ≠ []) : m.step.run = m.run := by
  have hend : (steps (m.step.weight + 1) m).agenda = [] := by
    rw [steps_succ h]
    exact agenda_run
  rw [run, ← steps_succ h]
  exact steps_eq_of_agenda_eq_nil hend agenda_run

/-- What every step keeps holds at the end of a run. -/
theorem run_induction {P : Machine O → Prop} (hstep : ∀ m, m.agenda ≠ [] → P m → P m.step)
    (h : P m) : P m.run := by
  have hsteps : ∀ n, P (steps n m) := by
    intro n
    induction n generalizing m with
    | zero => exact h
    | succ n ih =>
      by_cases ha : m.agenda = []
      · rwa [steps_of_agenda_eq_nil ha]
      · rw [steps_succ ha]
        exact ih (hstep m ha h)
  exact hsteps _

/-! ## Retirement -/

/-- Retirement changes nothing but services and the log. -/
theorem retire_eq (m : Machine O) :
    ∃ services log, m.retire = { m with world := { m.world with services, log } } := by
  unfold retire
  generalize m.world.services.size = n
  induction n with
  | zero => exact ⟨m.world.services, m.world.log, rfl⟩
  | succ n ih =>
    rw [Nat.fold_succ]
    obtain ⟨services, log, hm⟩ := ih
    rw [hm]
    split
    · split
      · exact ⟨_, _, rfl⟩
      · exact ⟨_, _, rfl⟩
    · exact ⟨_, _, rfl⟩

@[simp] theorem agenda_retire : m.retire.agenda = m.agenda := by
  obtain ⟨services, log, h⟩ := m.retire_eq
  rw [h]

@[simp] theorem last_retire : m.retire.last = m.last := by
  obtain ⟨services, log, h⟩ := m.retire_eq
  rw [h]

@[simp] theorem bench_retire : m.retire.world.bench = m.world.bench := by
  obtain ⟨services, log, h⟩ := m.retire_eq
  rw [h]

@[simp] theorem promises_retire : m.retire.world.promises = m.world.promises := by
  obtain ⟨services, log, h⟩ := m.retire_eq
  rw [h]

@[simp] theorem completables_retire : m.retire.world.completables = m.world.completables := by
  obtain ⟨services, log, h⟩ := m.retire_eq
  rw [h]

end Machine

/-- A command is carried out from the machine that it starts. -/
theorem World.perform_eq (w : World O) (c : Command O) :
    w.perform c =
      let m := ({ world := w, agenda := [] } : Machine O).start c |>.retire.run
      (m.last, m.world) := by
  rw [perform, ← Machine.run_step (List.cons_ne_nil _ _)]
  rfl

end Admission.Scenario
