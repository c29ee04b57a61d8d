import Admission.Error
import Admission.Word

/-!
# Semaphores

A semaphore bounds how many permits are held at once. It never grants more than remain; returning
more than were granted is a mistake of the caller that it does not guard against.

## Main definitions

* `SemaphoreConfig`: the settings, and which of them are valid
* `Semaphore`: the permits that remain
* `Semaphore.tryAcquire`, `Semaphore.release`: taking and returning permits
-/

namespace Admission

/-- The settings of a semaphore. -/
structure SemaphoreConfig where
  /-- The number of permits that may be held at once. -/
  maxConcurrency : UInt64 := 100
deriving DecidableEq, Repr

/-- Checks the settings: there is a permit. -/
def SemaphoreConfig.validate (c : SemaphoreConfig) : Except Error Unit :=
  require (c.maxConcurrency ≠ 0) .noConcurrency

/-- A bound on the permits held at once. -/
structure Semaphore where
  /-- The number of permits that may be held at once. -/
  maxConcurrency : UInt64
  remaining : UInt64
deriving DecidableEq, Repr

namespace Semaphore

/-- A semaphore with all its permits, of which there is at least one. -/
def make (maxConcurrency : UInt64) : Except Error Semaphore := do
  SemaphoreConfig.validate ⟨maxConcurrency⟩
  return ⟨maxConcurrency, maxConcurrency⟩

/-- A semaphore with validated settings. -/
def ofConfig (c : SemaphoreConfig) : Except Error Semaphore := make c.maxConcurrency

/-- The semaphore without `units` more permits, if that many remain. -/
def tryAcquire (s : Semaphore) (units : UInt64) : Option Semaphore :=
  if units ≤ s.remaining then some { s with remaining := s.remaining - units } else none

/-- The semaphore with `units` permits returned. -/
def release (s : Semaphore) (units : UInt64) : Semaphore :=
  { s with remaining := s.remaining + units }

/-- The number of permits held. -/
def held (s : Semaphore) : UInt64 := subSat s.maxConcurrency s.remaining

/-- Returning what was just granted restores the semaphore. -/
theorem release_of_tryAcquire {s t : Semaphore} {units : UInt64} (h : s.tryAcquire units = some t) :
    t.release units = s := by
  unfold tryAcquire at h
  split at h
  · cases h
    simp [release]
  · cases h

end Semaphore

end Admission
