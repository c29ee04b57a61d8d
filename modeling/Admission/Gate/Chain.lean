import Admission.Counts.Rolling
import Admission.Diagnostic

/-!
# Chains of components

A component of a guard rail grants or refuses permits. A request asks the components of a chain one
after another; as soon as one refuses, those that granted before it take their permits back as
unused, the latest first.

Components are known by a key, and all of them together have one state, so they may share as much of
it as they like. What they do to be seen outside they tell in notes.

## Main definitions

* `Note`: what components, observers and the library itself have to tell
* `Backpressure`: what a component does with a request and with returned permits
* `Chain.acquire`, `Chain.release`, `Chain.releaseUnused`: a request to a chain, the return of its
  permits with an outcome, and their return without one
-/

namespace Admission

/-- What happened while permits were granted and returned. -/
inductive Note (O R : Type) where
  | acquire (component : String) (units now : UInt64)
  /-- A component got permits back with an outcome. -/
  | release (component : String) (units : UInt64) (outcome : O) (now : UInt64)
  /-- A component got permits back that were not used. -/
  | unused (component : String) (units now : UInt64)
  /-- An observer heard that a guard rail granted permits. -/
  | acquired (observer rail : String) (units now : UInt64)
  /-- An observer heard that a guard rail refused a request. -/
  | rejected (observer rail : String) (units : UInt64) (reason : R) (now : UInt64)
  /-- An observer heard that a guard rail got permits back with an outcome. -/
  | released (observer rail : String) (units : UInt64) (outcome : O) (now : UInt64)
  | diagnostic (event : Diagnostic O R)

/-- What the component with a given key does to the state `γ` of all components. -/
class Backpressure (κ γ O R : Type) [Outcome O] where
  name : γ → κ → String
  /-- Asks for permits: the reason of a refusal, or nothing when they are granted. -/
  acquire : κ → (units now : UInt64) → γ → Option R × γ × List (Note O R)
  /-- Returns permits with the outcome of the action. Components may look at result counts. -/
  release : κ → (units : UInt64) → O → (now : UInt64) → Array (RollingCounts O) → γ →
    γ × List (Note O R)
  /-- Returns permits that were granted and never used. -/
  releaseUnused : κ → (units now : UInt64) → γ → γ × List (Note O R)

namespace Chain

variable {κ γ O R : Type} [Outcome O] [Backpressure κ γ O R]

/-- Asks every component for permits, all or nothing: the first refusal and the component that made
it, or nothing when all grant. -/
def acquire (units now : UInt64) : List κ → γ → Option (R × κ) × γ × List (Note O R)
  | [], s => (none, s, [])
  | c :: rest, s =>
    match Backpressure.acquire c units now s with
    | (some r, s, notes) => (some (r, c), s, notes)
    | (none, s, notes) =>
      match acquire units now rest s with
      | (none, s, more) => (none, s, notes ++ more)
      | (some refusal, s, more) =>
        let (s, undone) := Backpressure.releaseUnused c units now s
        (some refusal, s, notes ++ more ++ undone)

/-- Returns permits to every component with the outcome of the action, in the order of the chain. -/
def release (units : UInt64) (outcome : O) (now : UInt64) (metrics : Array (RollingCounts O)) :
    List κ → γ → γ × List (Note O R)
  | [], s => (s, [])
  | c :: rest, s =>
    let (s, notes) := Backpressure.release c units outcome now metrics s
    let (s, more) := release units outcome now metrics rest s
    (s, notes ++ more)

/-- Returns unused permits to every component, the last of the chain first. -/
def releaseUnused (units now : UInt64) : List κ → γ → γ × List (Note O R)
  | [], s => (s, [])
  | c :: rest, s =>
    let (s, notes) := releaseUnused units now rest s
    let (s, more) := Backpressure.releaseUnused c units now s
    (s, notes ++ more)

end Chain

end Admission
