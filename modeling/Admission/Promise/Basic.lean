import Admission.Completion

/-!
# Promises

A promise stands for one admitted action. It is pending until the first completion, which it keeps
for ever. The completing call then returns the permits, wakes the wakers, and runs the callbacks:
all listeners in the order of their registration, then the links, and again from the start if any
of them registered more, until none is left. Only then is the promise *drained*, and a callback that
comes later runs at once.

The module gives the steps of one promise; who runs the callbacks is not its business. A completable
is a promise without callbacks, which keeps only how the action ended.

## Main definitions

* `Permits ρ`: permits with the time they were granted and a way `ρ` to return them
* `Promise O ρ ω μ`: a promise whose wakers are `ω` and whose listeners are `μ`
* `Promise.settle`: the first completion wins
* `Promise.takeWakers`, `Promise.takeCallbacks`: what is to be run next
* `Promise.listen`, `Promise.link`, `Promise.poll`: registration
* `Completable O ρ`: a promise without callbacks
-/

namespace Admission

/-- Permits that an action holds. -/
structure Permits (ρ : Type) where
  units : UInt64
  start : UInt64
  release : ρ

/-- The state of one promise. -/
structure Promise (O ρ ω μ : Type) where
  permits : Option (Permits ρ) := none
  result : Option (Completion O) := none
  /-- The wakers of those who wait, in the order of their first polls. -/
  wakers : List ω := []
  /-- The listeners that are still to be run, in the order of their registration. -/
  listeners : List μ := []
  /-- The promises that the completion is still to be forwarded to. -/
  links : List Nat := []
  /-- Whether all callbacks have been run, so that later ones run at once. -/
  drained : Bool := false

namespace Promise

variable {O ρ ω μ : Type}

/-- Whether there is a completion. -/
def isDone (p : Promise O ρ ω μ) : Bool := p.result.isSome

/-- How far the action is. -/
def status (p : Promise O ρ ω μ) : Status :=
  match p.result with
  | some c => c.status
  | none => .pending

/-- Completes a pending promise. -/
def settle (p : Promise O ρ ω μ) (c : Completion O) : Option (Promise O ρ ω μ) :=
  match p.result with
  | some _ => none
  | none => some { p with result := some c }

/-- Takes the wakers. -/
def takeWakers (p : Promise O ρ ω μ) : Promise O ρ ω μ × List ω :=
  ({ p with wakers := [] }, p.wakers)

/-- Takes the listeners and links that are registered, or finds that none is left. -/
def takeCallbacks (p : Promise O ρ ω μ) : Promise O ρ ω μ × List μ × List Nat :=
  if p.listeners.isEmpty && p.links.isEmpty then ({ p with drained := true }, [], [])
  else ({ p with listeners := [], links := [] }, p.listeners, p.links)

/-- The completion with which a callback that is registered now has to run at once. -/
def late? (p : Promise O ρ ω μ) : Option (Completion O) := if p.drained then p.result else none

/-- Registers a listener. -/
def listen (p : Promise O ρ ω μ) (l : μ) : Promise O ρ ω μ :=
  { p with listeners := p.listeners ++ [l] }

/-- Registers a promise that the completion is to be forwarded to. -/
def link (p : Promise O ρ ω μ) (q : Nat) : Promise O ρ ω μ := { p with links := p.links ++ [q] }

/-- Registers a waker, unless one that wakes the same waiter is registered already. -/
def poll (p : Promise O ρ ω μ) (same : ω → ω → Bool) (w : ω) : Promise O ρ ω μ :=
  if p.wakers.any (same · w) then p else { p with wakers := p.wakers ++ [w] }

@[simp] theorem settle_of_result_eq_some {p : Promise O ρ ω μ} {c d : Completion O}
    (h : p.result = some d) : p.settle c = none := by
  simp [settle, h]

theorem result_of_settle {p q : Promise O ρ ω μ} {c : Completion O} (h : p.settle c = some q) :
    p.result = none ∧ q = { p with result := some c } := by
  unfold settle at h
  split at h
  · cases h
  · rename_i hn
    exact ⟨hn, by cases h; rfl⟩

@[simp] theorem result_takeWakers {p : Promise O ρ ω μ} : p.takeWakers.1.result = p.result := rfl

@[simp] theorem result_takeCallbacks {p : Promise O ρ ω μ} :
    p.takeCallbacks.1.result = p.result := by
  unfold takeCallbacks
  split <;> rfl

/-- Without listeners and links the promise is drained. -/
theorem takeCallbacks_of_eq_nil {p : Promise O ρ ω μ} (hl : p.listeners = []) (hk : p.links = []) :
    p.takeCallbacks = ({ p with drained := true }, [], []) := by
  simp [takeCallbacks, hl, hk]

@[simp] theorem result_listen {p : Promise O ρ ω μ} {l : μ} : (p.listen l).result = p.result := rfl

@[simp] theorem result_link {p : Promise O ρ ω μ} {q : Nat} : (p.link q).result = p.result := rfl

@[simp] theorem result_poll {p : Promise O ρ ω μ} {same : ω → ω → Bool} {w : ω} :
    (p.poll same w).result = p.result := by
  unfold poll
  split <;> rfl

@[simp] theorem isDone_takeWakers {p : Promise O ρ ω μ} : p.takeWakers.1.isDone = p.isDone := rfl

@[simp] theorem isDone_takeCallbacks {p : Promise O ρ ω μ} :
    p.takeCallbacks.1.isDone = p.isDone := by
  simp [isDone]

@[simp] theorem isDone_listen {p : Promise O ρ ω μ} {l : μ} : (p.listen l).isDone = p.isDone := rfl

@[simp] theorem isDone_link {p : Promise O ρ ω μ} {q : Nat} : (p.link q).isDone = p.isDone := rfl

@[simp] theorem isDone_poll {p : Promise O ρ ω μ} {same : ω → ω → Bool} {w : ω} :
    (p.poll same w).isDone = p.isDone := by
  simp [isDone]

end Promise

/-- The state of one completable. -/
structure Completable (O ρ : Type) where
  permits : Option (Permits ρ) := none
  status : Status := .pending

namespace Completable

variable {O ρ : Type}

/-- Whether the action has ended. -/
def isDone (k : Completable O ρ) : Bool := k.status.isTerminal

/-- Completes a pending completable; of the completion it keeps the status. -/
def settle (k : Completable O ρ) (c : Completion O) : Option (Completable O ρ) :=
  if k.isDone then none else some { k with status := c.status }

theorem status_of_settle {k l : Completable O ρ} {c : Completion O} (h : k.settle c = some l) :
    k.isDone = false ∧ l = { k with status := c.status } := by
  unfold settle at h
  split at h
  · cases h
  · rename_i hd
    exact ⟨by simpa using hd, by cases h; rfl⟩

end Completable

end Admission
