import Admission.Gate.Chain
import Admission.Gate.CircuitBreaker
import Admission.Gate.RateLimiter
import Admission.Gate.Semaphore
import Admission.Outcome.Vocabulary

/-!
# Gates

The components that guard rails are put together from: semaphores, rate limiters and circuit
breakers, each refusing for a reason of its own choice, and gates that follow a script. All gates
are kept in one table, and a component is a place in the table.

## Main definitions

* `Gate`: a component with its state
* `Gate.acquire`, `Gate.release`, `Gate.releaseUnused`: what each kind of component does
* `stepGate`: a step of the gate at a place of the table

## Main results

* `getElem?_stepGate`: the gate at every place after a step
-/

namespace Admission

/-- A gate whose answers are laid down beforehand, and which tells what it is asked. -/
structure ScriptedGate where
  name : String
  /-- The answers still to come; after them everything is granted. -/
  script : List (Option Rejection)
  /-- Whether the gate ignores permits that were not used. -/
  stateless : Bool
deriving DecidableEq, Repr

/-- A component with its state. -/
inductive Gate where
  | semaphore (name : String) (reason : Rejection) (s : Semaphore)
  | limiter (name : String) (reason : Rejection) (l : RateLimiter)
  /-- A circuit breaker, and the results that it judges its health by. -/
  | breaker (reason : Rejection) (metrics : Nat) (b : CircuitBreaker)
  | scripted (g : ScriptedGate)
deriving DecidableEq, Repr

namespace Gate

variable {O : Type} [Outcome O]

/-- The name of a gate. -/
def name : Gate → String
  | semaphore n _ _ => n
  | limiter n _ _ => n
  | breaker _ _ b => b.name
  | scripted g => g.name

/-- Asks a gate for permits. -/
def acquire (units now : UInt64) : Gate → Option Rejection × Gate × List (Note O Rejection)
  | semaphore n reason s =>
    match s.tryAcquire units with
    | some s => (none, semaphore n reason s, [])
    | none => (some reason, semaphore n reason s, [])
  | limiter n reason l =>
    let (l, granted) := l.tryAcquire units now
    (if granted then none else some reason, limiter n reason l, [])
  | breaker reason metrics b =>
    let (b, granted, events) := b.acquire now
    (if granted then none else some reason, breaker reason metrics b, events.map .diagnostic)
  | scripted g =>
    let asked := .acquire g.name units now
    match g.script with
    | [] => (none, scripted g, [asked])
    | answer :: rest => (answer, scripted { g with script := rest }, [asked])

/-- Returns permits to a gate with the outcome of the action. -/
def release (units : UInt64) (outcome : O) (now : UInt64) (metrics : Array (RollingCounts O)) :
    Gate → Gate × List (Note O Rejection)
  | semaphore n reason s => (semaphore n reason (s.release units), [])
  | limiter n reason l => (limiter n reason l, [])
  | breaker reason m b =>
    match metrics[m]? with
    | some results =>
      let (b, events) := b.release results outcome now
      (breaker reason m b, events.map .diagnostic)
    | none => (breaker reason m b, [])
  | scripted g => (scripted g, [.release g.name units outcome now])

/-- Returns unused permits to a gate. Only semaphores have something to take back. -/
def releaseUnused (units now : UInt64) : Gate → Gate × List (Note O Rejection)
  | semaphore n reason s => (semaphore n reason (s.release units), [])
  | limiter n reason l => (limiter n reason l, [])
  | breaker reason m b => (breaker reason m b, [])
  | scripted g => (scripted g, if g.stateless then [] else [.unused g.name units now])

end Gate

/-- Applies a step to the gate at a place of the table, if there is one. -/
def stepGate {α β : Type} (gates : Array Gate) (i : Nat) (default : α)
    (f : Gate → α × Gate × List β) :
    α × Array Gate × List β :=
  match gates[i]? with
  | some g =>
    let (a, g, notes) := f g
    (a, gates.setIfInBounds i g, notes)
  | none => (default, gates, [])

theorem getElem?_stepGate {α β : Type} (gates : Array Gate) (i : Nat) (default : α)
    (f : Gate → α × Gate × List β) (j : Nat) :
    (stepGate gates i default f).2.1[j]? =
      if i = j then gates[j]?.map fun g => (f g).2.1 else gates[j]? := by
  unfold stepGate
  by_cases hij : i = j
  · subst hij
    cases hg : gates[i]? with
    | none => simp [hg]
    | some g =>
      have hi : i < gates.size := (Array.getElem?_eq_some_iff.mp hg).1
      simp [Array.getElem?_setIfInBounds_self_of_lt hi]
  · cases gates[i]? with
    | none => rw [if_neg hij]
    | some g => rw [if_neg hij, Array.getElem?_setIfInBounds_ne hij]

/-- The components of a table of gates are its places. -/
instance {O : Type} [Outcome O] : Backpressure Nat (Array Gate) O Rejection where
  name gates i := (gates[i]?.map Gate.name).getD ""
  acquire i units now gates := stepGate gates i none (Gate.acquire units now)
  release i units outcome now metrics gates :=
    (stepGate gates i () fun g => ((), g.release units outcome now metrics)).2
  releaseUnused i units now gates :=
    (stepGate gates i () fun g => ((), g.releaseUnused units now)).2

end Admission
